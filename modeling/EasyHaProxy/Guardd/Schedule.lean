import EasyHaProxy.Guardd.System

/-! Whatever is refused, lost or restarted, a term that was committed stays as it is until a pass finds it
over or an operator forgets it; and an answered pass leaves every running term with an entry in the table.
-/
namespace EasyHaProxy.Guardd

/-- Only addresses a ban can be placed on are scheduled or decided on. -/
structure Bannable (w : World) : Prop where
  scheduled : ∀ ip, 0 < w.db.bannedUntil ip → enforceable ip
  decided : ∀ d, Pending w d → enforceable d.ip

theorem Bannable.db {w w' : World} (h : Bannable w) (hdb : w'.db = w.db) : Bannable w' := by
  refine ⟨fun ip => ?_, fun d => ?_⟩
  · rw [hdb]
    exact h.scheduled ip
  · rw [Pending, hdb]
    exact h.decided d

theorem Bannable.write {m : Move} {start w : World} {l : Write} (h : Bannable w) (hl : Permit m start w l) :
    Bannable (l.apply w) := by
  refine ⟨fun ip hpos => ?_, fun d hd => ?_⟩
  · rcases hl.bannedUntil ip with hsame | ⟨-, rfl⟩ | ⟨now, -, hpass, rfl | ⟨id, till, ts, detail, rfl⟩⟩
    · exact h.scheduled ip (hsame ▸ hpos)
    · simp [Write.apply, DbWrite.apply, Database.bannedUntil_clearBan] at hpos
    · simp [Write.apply, DbWrite.apply, Database.bannedUntil_clearBan] at hpos
    · cases hpass with
      | quiet hq => cases hq
      | settled hd _ _ _ _ => exact h.decided _ hd.1
      | commit _ _ henf _ _ _ _ _ _ _ => exact henf
  · rcases hl.pending hd with hd | ⟨now, c, -, rfl, rfl, hpass⟩
    · exact h.decided d hd
    · cases hpass with
      | quiet hq =>
        cases hq with
        | recordDecision hp _ => exact absurd hd.2 hp
      | decide _ _ henf _ _ => exact henf

theorem Bannable.step {C : Move → World → Prop} {w w' : World} {e : Event} (h : Bannable w)
    (he : Granted C w e w') : Bannable w' := by
  cases e with
  | write m l =>
    obtain ⟨rfl, start, -, -, hl⟩ := he
    exact h.write hl
  | turn m =>
    obtain ⟨start, -, -, hturn⟩ := he
    exact h.db hturn.db

/-- What keeps the schedule of an address unambiguous: no pass finds its ban standing
unaccounted for with two decisions to settle, and none comes to the ban loop with a term of
it that is over and could not be cleared. -/
def Orderly (ip : Ip) (m : Move) (w : World) : Prop :=
  ∀ now, m.passAt w = some now →
    (w.holds ip adaptiveBanCode → w.db.bannedUntil ip ≤ 0 → NoTwins w now ip) ∧
      Clears m.script.Reads w now ip

theorem orderly_of_no_pass {ip : Ip} {m : Move} {w : World} (h : m.passAt w = none) : Orderly ip m w := by
  intro now hp
  rw [h] at hp
  cases hp

def Action.forgets (ip : Ip) : Action → Bool
  | .forget j => j = ip
  | _ => false

def Write.clearsBan (ip : Ip) : Write → Bool
  | .sql (.clearBan j) => j = ip
  | _ => false

/-- How a term ends: by hand, or cleared by a pass that finds it over. -/
def endsTerm (ip : Ip) (w : World) : Event → Bool
  | .write m l => m.action.forgets ip ||
    l.clearsBan ip && (m.passAt w).any (fun now => w.db.bannedUntil ip ≤ now)
  | .turn _ => false

theorem term_step {ip : Ip} {w w' : World} {e : Event} (he : Granted (Orderly ip) w e w')
    (hpos : 0 < w.db.bannedUntil ip) :
    w'.db.bannedUntil ip = w.db.bannedUntil ip ∨ endsTerm ip w e := by
  cases e with
  | turn m =>
    obtain ⟨start, -, -, hturn⟩ := he
    exact Or.inl (by rw [hturn.db])
  | write m l =>
    obtain ⟨rfl, start, horder, hwithin, hl⟩ := he
    rcases hl.bannedUntil ip with hsame | ⟨ha, -⟩ | ⟨now, hp, hpass, hcases⟩
    · exact Or.inl hsame
    · exact Or.inr (by simp [endsTerm, ha, Action.forgets])
    · obtain ⟨htwins, hclears⟩ := horder now hp
      rcases hcases with rfl | ⟨id, till, ts, detail, rfl⟩
      · cases hpass with
        | quiet hq => cases hq
        | clear _ hserved _ =>
          exact Or.inr (by simp [endsTerm, Write.clearsBan, hwithin.passAt.trans hp, hserved])
      · -- A commit finds no term: the one there was is cleared, or there was none.
        cases hpass with
        | quiet hq => cases hq
        | settled _ hstands hopen halone _ =>
          exact absurd (halone (htwins hstands hopen)) (not_le.mpr hpos)
        | commit _ _ _ _ _ _ _ _ hclear _ => exact absurd (hclear hclears) (not_le.mpr hpos)

theorem pass_flags {m : Move} {w : World} {now : Int} (ha : m.action = .enforce) (hcrash : m.crash = none)
    (hs : m.script.Succeeds) (hnow : w.cycle.findingsAt = some now) (hmode : w.mem.mode = .enforce) {ip : Ip}
    (henf : enforceable ip) (hpos : 0 < (m.after w).db.bannedUntil ip)
    (hdue : now < (m.after w).db.bannedUntil ip) : (m.after w).flagged ip := by
  have hp : m.action.program w = some (do applyEnforcement now; pure .idle) := by
    rw [ha]
    simp only [Action.program, hnow]
  have hpass : WP Script.Succeeds
      (By (EnforceWrite w now (Clears (ReadsDone Script.Succeeds) w now)))
      (do applyEnforcement now; pure Cycle.idle) (fun _ w' => PassDone w now w') (fun _ _ => False) w :=
    WP.bind (wp_applyEnforcement closed_succeeds
      (fun w' hw' => WP.pure (hw' allDone_succeeds.toAnswered))
      (fun _ _ hfail => hfail allDone_succeeds.toAnswered))
  obtain ⟨c, w', hafter, hdone⟩ := after_of_wp hp hcrash hpass hs
  rw [hafter] at hpos hdue ⊢
  exact hdone.enforced hmode ip henf hpos hdue

/-- In every run: a committed term stays until it is over and cleared, or forgotten, as long as
the moves are orderly for the address; and an answered pass in enforce mode leaves every
address whose term runs flagged. -/
theorem schedule_decides {w : World} (hw : Bannable w) (ms : List Move) :
    (∀ ip, Meets (Orderly ip) w ms →
      Steps (fun s e t => 0 < s.db.bannedUntil ip →
        t.db.bannedUntil ip = s.db.bannedUntil ip ∨ endsTerm ip s e) w (run w ms)) ∧
    ∀ (m : Move) (now : Int), m.action = .enforce → m.crash = none → m.script.Succeeds →
      (reached w ms).cycle.findingsAt = some now → (reached w ms).mem.mode = .enforce →
      ∀ ip, 0 < (m.after (reached w ms)).db.bannedUntil ip →
        now < (m.after (reached w ms)).db.bannedUntil ip → (m.after (reached w ms)).flagged ip := by
  refine ⟨fun ip h => (run_granted h).mono (fun _ _ _ he hpos => term_step he hpos), ?_⟩
  intro m now ha hcrash hs hnow hmode ip hpos hdue
  have hreached : Bannable (m.after (reached w ms)) :=
    have h₁ : Bannable (reached w ms) := (run_granted (meets_any w ms)).keeps hw (fun _ _ _ h he => h.step he)
    (trace_granted (C := fun _ _ => True) trivial).keeps h₁ (fun _ _ _ h he => h.step he)
  exact pass_flags ha hcrash hs hnow hmode (hreached.scheduled ip hpos) hpos hdue

/-- An address banned for two scans, no crash anywhere: each of two passes ten seconds apart
loses HAProxy's answer to its `set table`. -/
def scanned : World where
  clock := 1010000
  db :=
    { ipState := Dict.empty.set "10.0.0.1"
        { family := 4, enforceable := true, firstSeen := 1000, lastSeen := 1001 }
      events :=
        [{ id := 1, ts := 1000, ip := "10.0.0.1", eventType := .scannerDecisive, category := "secrets" },
         { id := 2, ts := 1001, ip := "10.0.0.1", eventType := .scannerDecisive, category := "backup" }] }
  mem := { mode := .enforce, banDurations := defaultBanDurations }

def beforePass : List Move := [{ action := .read }, { action := .observe }, { action := .ingest }]

def cycleOf (script : Script) : List Move := beforePass ++ [{ action := .enforce, script }]

def answerLostTwice : List Move :=
  cycleOf { sets := [.lost true] } ++ { action := .tick 10000 } ::
    cycleOf { sets := [.lost true] } ++ { action := .tick 90000 } :: cycleOf {}

theorem bannable_scanned : Bannable scanned where
  scheduled := by
    intro ip hpos
    have h : scanned.db.scheduledBans.get? ip = some (scanned.db.bannedUntil ip) := by
      rw [Database.get?_scheduledBans, if_pos hpos]
    have hnone : scanned.db.scheduledBans = .empty := by decide +kernel
    rw [hnone] at h
    exact absurd h (by simp)
  decided := fun _ hd => absurd hd.1 List.not_mem_nil

/-- One address banned by an orderly run, and its entry still there after the next pass. -/
theorem schedule_decides_scanned :
    Steps (fun s e t => 0 < s.db.bannedUntil "10.0.0.1" →
      t.db.bannedUntil "10.0.0.1" = s.db.bannedUntil "10.0.0.1" ∨ endsTerm "10.0.0.1" s e)
      scanned (run scanned (cycleOf {} ++ beforePass)) ∧
    (Move.after { action := .enforce } (reached scanned (cycleOf {} ++ beforePass))).flagged "10.0.0.1" := by
  have h := schedule_decides bannable_scanned (cycleOf {} ++ beforePass)
  have hdecisions : (reached scanned beforePass).db.decisions = [] := by decide +kernel
  refine ⟨h.1 "10.0.0.1" ⟨?_, ?_, ?_, ?_, ?_, ?_, ?_, trivial⟩, ?_⟩
  · exact orderly_of_no_pass rfl
  · exact orderly_of_no_pass rfl
  · exact orderly_of_no_pass rfl
  · intro now _
    refine ⟨fun _ _ d c hd _ _ _ => ?_, Or.inl ⟨List.forall_mem_nil _, List.forall_mem_nil _⟩⟩
    have hmem : d ∈ (reached scanned beforePass).db.decisions := hd.1.1
    rw [hdecisions] at hmem
    exact absurd hmem List.not_mem_nil
  · exact orderly_of_no_pass rfl
  · exact orderly_of_no_pass rfl
  · exact orderly_of_no_pass rfl
  · refine h.2 { action := .enforce } 1010 rfl rfl ?_ ?_ ?_ "10.0.0.1" ?_ ?_
    · exact ⟨List.forall_mem_nil _, List.forall_mem_nil _, List.forall_mem_nil _, List.forall_mem_nil _,
        List.forall_mem_nil _, List.forall_mem_nil _⟩
    all_goals decide +kernel

/-- The pass that settles the two decisions commits one term and then the other. -/
theorem term_committed_twice : ¬ ∀ (w : World) (ms : List Move) (ip : Ip), Bannable w →
    Steps (fun s e t => 0 < s.db.bannedUntil ip →
      t.db.bannedUntil ip = s.db.bannedUntil ip ∨ endsTerm ip s e) w (run w ms) := by
  intro h
  refine absurd (h scanned answerLostTwice "10.0.0.1" bannable_scanned) ?_
  decide +kernel

end EasyHaProxy.Guardd
