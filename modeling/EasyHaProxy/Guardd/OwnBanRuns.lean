import EasyHaProxy.Lib.Machine
import EasyHaProxy.Guardd.OwnBans

/-! Reads of the ban table in any order with operators' unbans and the lifts of the new policy, while
HAProxy does with its table what it likes. -/
namespace EasyHaProxy.Guardd.OwnBans

open Enforcer

/-- `ingest_tables` of a read of the ban table. -/
def ingestRead (signedIn : Option (Dict Ip Int)) (now : Int) : M Unit := do
  let w ← Prog.get
  observeTables { ban := some w.rows, signedIn } now
  ingestTables { ban := some w.rows, signedIn } now

inductive Op
  /-- HAProxy changes its table, time goes by, the configuration names a policy. -/
  | outside (table : Dict Ip BanEntry) (clock : Int) (policy : BanPolicy)
  | switch (script : Script)
  | ingest (signedIn : Option (Dict Ip Int)) (now : Int) (script : Script)
  | unban (ip : Ip) (now : Int) (script : Script)

structure Recording where
  world : World
  sight : Ip → Sight

def step (s : Recording) : Op → Recording
  | .outside table clock policy => { s with world := { s.world with table, clock, policy } }
  | .switch script => { s with world := refreshBanPolicy.final script s.world }
  | .ingest signedIn now script =>
    let w := (ingestRead signedIn now).final script s.world
    { world := w, sight := fun ip => (s.sight ip).ingest (s.world.active.get? ip) (w.active.get? ip) }
  | .unban ip now script =>
    let w := (forgetBan ip now).final script s.world
    { world := w
      sight := fun j =>
        if j = ip then
          (s.sight j).unban (s.world.active.get? j) (w.active.get? j) (forgetBan ip now script s.world).result.isOk
        else s.sight j }

/-- The recording begins after a read that showed `codes`: nothing is followed and nothing of HAProxy's is
in the history. -/
structure Begins (w : World) (codes : Ip → Option Int) : Prop where
  known : ∀ ip, ip ∈ w.mem.knownBans ↔ (codes ip).isSome
  followed : w.mem.legacyObserved = .empty
  decisions : ∀ d ∈ w.db.decisions, d.action ≠ .observed ∧ d.action ≠ .ended

def begun (w : World) (codes : Ip → Option Int) : Recording where
  world := w
  sight ip := { read := codes ip, old := (codes ip).isSome }

/-- The statements commit, the bans can all be kept, and what is flagged in one read after another is
the same ban still. -/
def Condition (s : Recording) : Op → Prop
  | .outside .. | .switch _ => True
  | .ingest _ _ script => script.Commits ∧ (flaggedIn s.world.table).entries.length ≤ knownBansMax ∧
      ∀ ip, (s.sight ip).Continues (s.world.active.get? ip)
  | .unban _ _ script => script.Commits

structure Recorded (s : Recording) : Prop where
  small : Small s.world
  follows : ∀ ip, Follows (track s.world ip) (s.sight ip)

variable {w : World} {s : Recording} {codes : Ip → Option Int} {op : Op} {ops : List Op}
  {signedIn : Option (Dict Ip Int)} {now : Int} {script : Script} {ip : Ip}

/-! ## One operation -/

theorem still_refreshBanPolicy (w : World) (script : Script) : Still w (refreshBanPolicy.final script w) := by
  have hwp : WP (fun _ => True) (By Any) refreshBanPolicy (fun _ => Still w) (fun _ => Still w) w := by
    refine WP.bind (WP.get (WP.bind (wp_remember trivial ?_)))
    have h₁ : Still w { w with mem := { w.mem with banPolicy := w.policy } } := Still.memory rfl rfl
    have mark : WP (fun _ => True) (By Any) (setState fun state => { state with banPolicy := w.policy })
        (fun _ => Still w) (fun _ => Still w) { w with mem := { w.mem with banPolicy := w.policy } } :=
      wp_setState closed_any trivial ⟨rfl, rfl, rfl, fun _ => rfl⟩ (fun _ => h₁)
    refine WP.when (fun _ => ?_) (fun _ => h₁)
    by_cases hp : w.policy = .u02
    · rw [if_pos hp]
      refine WP.bind (wp_attempt (wp_readTable closed_any ?_ ?_))
      · exact WP.when (fun _ => mark) (fun h => absurd rfl h)
      · intro _ e he
        rw [if_pos he]
        exact WP.when (fun h => absurd h Bool.noConfusion) (fun _ => h₁)
    · rw [if_neg hp]
      exact WP.bind (WP.pure (WP.when (fun _ => mark) (fun h => absurd rfl h)))
  obtain ⟨-, -, hend⟩ := hwp script trivial
  unfold Ends at hend
  split at hend <;> exact hend

theorem ingestRead_track (signedIn : Option (Dict Ip Int)) (now : Int) (hscript : script.Commits) (hmax : (flaggedIn w.table).entries.length ≤ knownBansMax) :
    Small ((ingestRead signedIn now).final script w) ∧
      ∀ ip, Track.Rest (track w ip).observe (track ((ingestRead signedIn now).final script w) ip) := by
  have hwp : WP Script.Commits (By Any) (ingestRead signedIn now)
      (fun _ w' => Small w' ∧ ∀ ip, Track.Rest (track w ip).observe (track w' ip))
      (fun _ w' => Small w' ∧ ∀ ip, Track.Rest (track w ip).observe (track w' ip)) w := by
    refine WP.bind (WP.get (WP.bind ?_))
    refine wp_observeTables_track closed_commits sqlDone_commits (fun _ => codeIn_rows) hmax fun w₁ _ hs₁ htrack₁ => ?_
    have done : ∀ w₂, Rests w₁ w₂ → Small w₂ ∧ ∀ ip, Track.Rest (track w ip).observe (track w₂ ip) := by
      intro w₂ h₂
      exact ⟨h₂.small hs₁, fun ip => htrack₁ ip ▸ h₂.track ip⟩
    exact wp_ingestBans_rests closed_commits sqlDone_commits hs₁ done (fun _ => done)
  obtain ⟨-, -, hend⟩ := hwp script hscript
  unfold Ends at hend
  split at hend <;> exact hend

/-- An unban either returns and ends what was followed or fails before it writes anything down. -/
theorem forgetBan_track (now : Int) (hscript : script.Commits) (hs : Small w)
    (hlegacy : ∀ c, w.mem.legacyObserved.get? ip = some c → c ∈ legacyBanCodes) :
    let w' := (forgetBan ip now).final script w
    Small w' ∧ (∀ j, j ≠ ip → track w' j = track w j) ∧
      ((forgetBan ip now script w).result.isOk = true ∧ Track.Unbanned (track w ip) (track w' ip) ∨
        (forgetBan ip now script w).result.isOk = false ∧ Loose ip w w') := by
  have hwp : WP Script.Commits (By Any) (forgetBan ip now)
      (fun _ w' => Small w' ∧ (∀ j, j ≠ ip → track w' j = track w j) ∧ Track.Unbanned (track w ip) (track w' ip))
      (fun _ w' => Loose ip w w') w :=
    wp_forgetBan_track closed_commits sqlDone_commits hs hlegacy (fun _ _ h₁ h₂ h₃ => ⟨h₁, h₂, h₃⟩) (fun _ _ h => h)
  obtain ⟨-, -, hend⟩ := hwp script hscript
  unfold Ends at hend
  dsimp only
  cases hr : (forgetBan ip now script w).result with
  | ok r =>
    rw [hr] at hend
    exact ⟨hend.1, hend.2.1, Or.inl ⟨rfl, hend.2.2⟩⟩
  | error e =>
    rw [hr] at hend
    exact ⟨hend.small hs, fun j hj => hend.track hj, Or.inr ⟨rfl, hend⟩⟩

/-- After a read every ban of HAProxy's that is younger than the recording is followed. -/
theorem Recorded.ingest (h : Recorded s) (hc : Condition s (.ingest signedIn now script)) :
    Recorded (step s (.ingest signedIn now script)) ∧ ∀ ip, ∀ c ∈ legacyBanCodes,
      (step s (.ingest signedIn now script)).world.active.get? ip = some c →
      ((step s (.ingest signedIn now script)).sight ip).old = false →
      (step s (.ingest signedIn now script)).world.mem.legacyObserved.get? ip = some c := by
  obtain ⟨hscript, hmax, hsame⟩ := hc
  obtain ⟨hsmall, hrest⟩ := ingestRead_track signedIn now hscript hmax
  have key := fun ip => (h.follows ip).ingest (hsame ip) (hrest ip)
  exact ⟨⟨hsmall, fun ip => (key ip).1⟩, fun ip => (key ip).2⟩

theorem Recorded.step (h : Recorded s) (hc : Condition s op) : Recorded (OwnBans.step s op) := by
  cases op with
  | outside table clock policy => exact ⟨h.small, fun ip => (h.follows ip).outside _⟩
  | switch script =>
    have hstill := still_refreshBanPolicy s.world script
    exact ⟨hstill.small h.small, fun ip => hstill.track ▸ h.follows ip⟩
  | ingest signedIn now script => exact (h.ingest hc).1
  | unban ip now script =>
    obtain ⟨hsmall, hother, hip⟩ := forgetBan_track now hc h.small
      fun c hget => ((h.follows ip).followed c hget).1
    refine ⟨hsmall, fun j => ?_⟩
    unfold OwnBans.step
    dsimp only
    by_cases hj : j = ip
    · subst hj
      rw [if_pos rfl]
      rcases hip with ⟨hok, hunbanned⟩ | ⟨hok, hloose⟩
      · rw [hok]
        exact (h.follows j).unbanned hunbanned
      · rw [hok]
        refine (h.follows j).failed ?_ ?_ (hloose.notes j)
        · change List.contains _ j = _
          rw [hloose.known]
          rfl
        · change Dict.get? _ j = _
          rw [hloose.followed]
          rfl
    · rw [if_neg hj, hother j hj]
      exact h.follows j

theorem course_of_lifted {l : List Note} (h : ∀ n ∈ l, n.1 = .lifted) : course l = some .never := by
  unfold course
  induction l with
  | nil => rfl
  | cons n l ih =>
    obtain ⟨action, c⟩ := n
    obtain rfl : action = .lifted := h _ List.mem_cons_self
    exact ih fun m hm => h m (List.mem_cons_of_mem _ hm)

theorem recorded_begun (hw : Begins w codes) : Recorded (begun w codes) := by
  refine ⟨by rw [Small, begun, hw.followed]; exact Nat.zero_le _, fun ip => ?_⟩
  have hnone : (track w ip).followed = none := by
    change w.mem.legacyObserved.get? ip = none
    rw [hw.followed]
    rfl
  have hcourse : course (track w ip).notes = some .never := by
    refine course_of_lifted fun n hn => ?_
    obtain ⟨d, hd, rfl⟩ := List.mem_map.mp hn
    obtain ⟨hmem, hnote⟩ := List.mem_filter.mp hd
    have := hw.decisions d hmem
    simpa [isNote, this] using (of_decide_eq_true hnote).2
  have hknown : (track w ip).known = (codes ip).isSome := by
    rw [Bool.eq_iff_iff, ← hw.known ip]
    exact List.contains_iff_mem
  refine ⟨hknown, ?_, ?_, fun _ => hcourse, ?_, fun _ => Or.inl hcourse⟩
  · change ∀ c, (track w ip).followed = some c → _
    rw [hnone]
    exact fun c hc => by cases hc
  · intro c _ hread hold
    have hsome : (codes ip).isSome = false := hold
    rw [show codes ip = some c from hread] at hsome
    cases hsome
  · change ∀ c, (track w ip).followed = some c → _
    rw [hnone]
    exact fun c hc => by cases hc

/-! ## Runs -/

/-- In every run, each ban of HAProxy's that was observed is ended once before the next, what is followed is
what stands in the history, and after each read every ban of HAProxy's younger than the recording is followed. -/
theorem own_bans_followed (hw : Begins w codes) (h : Machine.Along step Condition (begun w codes) ops) :
    (∀ ip, (course (notes (Machine.run step (begun w codes) ops).world ip)).isSome = true) ∧
    (∀ ip c, (Machine.run step (begun w codes) ops).world.mem.legacyObserved.get? ip = some c →
      course (notes (Machine.run step (begun w codes) ops).world ip) = some (.standing c)) ∧
    ∀ signedIn now script, Condition (Machine.run step (begun w codes) ops) (.ingest signedIn now script) →
      ∀ ip, ∀ c ∈ legacyBanCodes,
        (Machine.run step (begun w codes) (ops ++ [Op.ingest signedIn now script])).world.active.get? ip = some c →
        ((Machine.run step (begun w codes) (ops ++ [Op.ingest signedIn now script])).sight ip).old = false →
        (Machine.run step (begun w codes) (ops ++ [Op.ingest signedIn now script])).world.mem.legacyObserved.get? ip =
          some c := by
  have hrec : Recorded (Machine.run step (begun w codes) ops) :=
    h.keeps (recorded_begun hw) fun _ _ => Recorded.step
  refine ⟨fun ip => (hrec.follows ip).course_isSome, fun ip => (hrec.follows ip).standing, ?_⟩
  intro signedIn now script hc
  rw [Machine.run_append, Machine.run_cons, Machine.run_nil]
  exact (hrec.ingest hc).2

/-- The daemon with an empty database. -/
def freshWorld : World where
  clock := 1000000
  mem := { mode := .monitor, banDurations := [3600] }

def flaggedWith (code : Int) : Dict Ip BanEntry :=
  Dict.empty.set "192.0.2.1" { gpc0 := 1, gpt0 := code, expires := 5000000 }

theorem begins_freshWorld : Begins freshWorld fun _ => none :=
  ⟨fun _ => by simp [freshWorld], rfl, fun _ h => by cases h⟩

/-- One ban of HAProxy's and the read that shows it. -/
def firstBan : List Op := [.outside (flaggedWith 10) 1000000 .legacy, .ingest none 1000 {}]

/-- Nothing was read before the first read. -/
theorem condition_firstBan : Machine.Along step Condition (begun freshWorld fun _ => none) firstBan := by
  refine ⟨trivial, ⟨?_, by decide, fun ip c _ _ hread => ?_⟩, trivial⟩
  · exact fun b hb => by cases hb
  · cases hread

theorem own_bans_followed_firstBan :
    (∀ ip, (course (notes (Machine.run step (begun freshWorld fun _ => none) firstBan).world ip)).isSome = true) ∧
    (∀ ip c, (Machine.run step (begun freshWorld fun _ => none) firstBan).world.mem.legacyObserved.get? ip = some c →
      course (notes (Machine.run step (begun freshWorld fun _ => none) firstBan).world ip) = some (.standing c)) ∧
    ∀ signedIn now script, Condition (Machine.run step (begun freshWorld fun _ => none) firstBan)
        (.ingest signedIn now script) →
      ∀ ip, ∀ c ∈ legacyBanCodes,
        (Machine.run step (begun freshWorld fun _ => none)
          (firstBan ++ [Op.ingest signedIn now script])).world.active.get? ip = some c →
        ((Machine.run step (begun freshWorld fun _ => none)
          (firstBan ++ [Op.ingest signedIn now script])).sight ip).old = false →
        (Machine.run step (begun freshWorld fun _ => none)
          (firstBan ++ [Op.ingest signedIn now script])).world.mem.legacyObserved.get? ip = some c :=
  own_bans_followed begins_freshWorld condition_firstBan

/-- Every command is answered, every statement commits and all bans can be kept. -/
def Plain (s : Recording) : Op → Prop
  | .outside .. => True
  | .switch script => script = {}
  | .ingest _ _ script => script = {} ∧ (flaggedIn s.world.table).entries.length ≤ knownBansMax
  | .unban _ _ script => script = {}

/-- HAProxy gives an address it has banned another code of its own between two reads: the first ban is
ended, the second is never followed. -/
theorem changed_code_not_followed :
    ¬ ∀ (w : World) (codes : Ip → Option Int) (ops : List Op) (signedIn : Option (Dict Ip Int)) (now : Int),
      Begins w codes → Machine.Along step Plain (begun w codes) (ops ++ [Op.ingest signedIn now {}]) →
      ∀ ip, ∀ c ∈ legacyBanCodes,
        (Machine.run step (begun w codes) (ops ++ [Op.ingest signedIn now {}])).world.active.get? ip = some c →
        ((Machine.run step (begun w codes) (ops ++ [Op.ingest signedIn now {}])).sight ip).old = false →
        (Machine.run step (begun w codes) (ops ++ [Op.ingest signedIn now {}])).world.mem.legacyObserved.get? ip =
          some c := by
  intro h
  have hfollowed := h freshWorld (fun _ => none)
    [.outside (flaggedWith 10) 1000000 .legacy, .ingest none 1000 {}, .outside (flaggedWith 20) 1060000 .legacy]
    none 1060 begins_freshWorld
    ⟨trivial, ⟨rfl, by decide⟩, trivial, ⟨rfl, by decide +kernel⟩, trivial⟩ "192.0.2.1" 20 (by decide)
    (by decide +kernel) (by decide +kernel)
  exact absurd hfollowed (by decide +kernel)

end EasyHaProxy.Guardd.OwnBans
