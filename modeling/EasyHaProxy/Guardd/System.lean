import EasyHaProxy.Guardd.Requests

/-! The daemon's cycle, stage by stage, in any order with the operator's requests, restarts of either
daemon, the passing of time and what HAProxy does on its own. -/
namespace EasyHaProxy.Guardd

inductive Action
  /-- `refresh_ban_policy` and `read_tables`: a cycle begins. -/
  | read
  /-- `ingest_tables` up to its lock. -/
  | observe
  /-- The locked part of `ingest_tables`. -/
  | ingest
  | record (findings : List Finding)
  | enforce
  | forget (ip : Ip)
  | place (ip : Ip)
  | setMode (mode : Mode)
  | setBanDurations (data : Json)
  | maintain (days : Int)
  /-- guardd is started again. -/
  | start
  /-- HAProxy is started again: its tables are empty. -/
  | restart
  /-- Milliseconds go by; `tbl_ban` drops what has expired. -/
  | tick (ms : Nat)
  /-- HAProxy flags an address on its own rules. -/
  | legacyBan (ip : Ip) (code : Int)
  /-- An operator works on the socket, past guardd. -/
  | socketClear (ip : Ip)
  | socketBan (ip : Ip)
  | signIns (table : Dict Ip Int)
  | relist (lists : Ip → List TrustSource)
  | configure (policy : BanPolicy)

/-- What a started daemon finds in its configuration. -/
structure Config where
  mode : Mode := .monitor
  queueLimit : Nat := 10000

/-- One move: how the commands of it are answered, and after how many writes the daemon
dies, if it does. -/
structure Move where
  action : Action
  script : Script := {}
  crash : Option Nat := none
  config : Config := {}

inductive Event
  | write (m : Move) (l : Write)
  | turn (m : Move)

/-- What a cycle works with, once it is far enough. -/
def Cycle.findingsAt : Cycle → Option Int
  | .ingested now => some now
  | .recorded now => some now
  | _ => none

/-- The program of a move and where it leaves the cycle; nothing when it is not its turn. -/
def Action.program (w : World) : Action → Option (M Cycle)
  | .read => match w.cycle with
    | .idle => some do
      refreshBanPolicy
      let tables ← readTables
      pure (.tablesRead w.now tables)
    | _ => none
  | .observe => match w.cycle with
    | .tablesRead now tables => some do
      observeTables tables now
      pure (.observed now tables)
    | _ => none
  | .ingest => match w.cycle with
    | .observed now tables => some do
      ingestTables tables now
      pure (.ingested now)
    | _ => none
  | .record findings => match w.cycle.findingsAt with
    | some now => some do
      ingestFindings findings now
      pure (.recorded now)
    | none => none
  | .enforce => match w.cycle.findingsAt with
    | some now => some do
      applyEnforcement now
      pure .idle
    | none => none
  | .forget ip => some do
    let _ ← forgetBan ip w.now
    pure w.cycle
  | .place ip => some do
    let _ ← placeManualBan ip w.now
    pure w.cycle
  | .setMode mode => some do
    Guardd.setMode mode w.now
    pure w.cycle
  | .setBanDurations data => some do
    Guardd.setBanDurations data w.now
    pure w.cycle
  | .maintain days => some do
    Guardd.maintain days w.now
    pure w.cycle
  | _ => none

/-- Where an exception leaves the cycle: a poll that raises is over. -/
def Action.raised (w : World) : Action → Cycle
  | .read | .observe | .ingest | .record _ | .enforce => .idle
  | _ => w.cycle

/-- A daemon that comes up again. -/
def World.reload (w : World) (config : Config) : World :=
  { w with mem := Memory.load config.mode config.queueLimit w.now w.db, cycle := .idle }

/-- What happens outside the daemon. -/
def Action.outside (w : World) : Action → World
  | .restart => { w with table := .empty, signedIn := .empty, startedAt := w.now }
  | .tick ms =>
    { w with clock := w.clock + ms, table := w.table.filter (fun _ e => w.clock + ms < e.expires) }
  | .legacyBan ip code =>
    if code ∈ legacyBanCodes ∧ w.flagged ip = false then
      { w with
        table := w.table.set ip { gpc0 := 1, gpt0 := code, expires := w.clock + w.tableExpire, standing := w.nextStanding }
        nextStanding := w.nextStanding + 1 }
    else w
  | .socketClear ip => { w with table := w.table.erase ip }
  | .socketBan ip => w.setTable ip .byHand
  | .signIns table => { w with signedIn := table }
  | .relist lists => { w with lists }
  | .configure policy => { w with policy }
  | _ => w

def Move.trace (m : Move) (w : World) : List (Event × World) :=
  match m.action.program w with
  | none =>
    let w' := match m.action with
      | .start => w.reload m.config
      | a => a.outside w
    [(.turn m, w')]
  | some p =>
    let out := p m.script w
    let writes := match m.crash with
      | none => out.log
      | some k => out.log.drop (out.log.length - k)
    let done := lastState w writes
    let w' := match m.crash, out.result with
      | some _, _ => done.reload m.config
      | none, .ok cycle => { done with cycle }
      | none, .error _ => { done with cycle := m.action.raised w }
    (.turn m, w') :: writes.map (fun e => (.write m e.1, e.2))

def Move.after (m : Move) (w : World) : World := lastState w (m.trace w)

def run (w : World) : List Move → List (Event × World)
  | [] => []
  | m :: ms => run (m.after w) ms ++ m.trace w

def reached (w : World) (ms : List Move) : World := lastState w (run w ms)

/-- Every move of a run is taken in a state that meets a condition. -/
def Meets (C : Move → World → Prop) (w : World) : List Move → Prop
  | [] => True
  | m :: ms => C m w ∧ Meets C (m.after w) ms

theorem reached_cons (w : World) (m : Move) (ms : List Move) :
    reached w (m :: ms) = reached (m.after w) ms := by
  unfold reached
  exact lastState_append

/-! ## What every write of a run is -/

theorem EnforceWrite.weaken {start v w : World} {now : Int} {a b : Ip → Prop} {l : Write}
    (h : EnforceWrite start now a w l) (htable : v.table = start.table)
    (hdecisions : v.db.decisions = start.db.decisions)
    (hschedule : ∀ ip, v.db.bannedUntil ip = start.db.bannedUntil ip) (hab : ∀ ip, b ip → a ip) :
    EnforceWrite v now b w l := by
  have hpending : ∀ d, Pending v d ↔ Pending start d := fun d => by rw [Pending, hdecisions]; rfl
  have hone : OnePending v → OnePending start := fun h d c hd hc hip =>
    h d c ((hpending d).mpr hd) ((hpending c).mpr hc) hip
  have htwins : ∀ ip, NoTwins v now ip → NoTwins start now ip := fun _ h d c hd hc =>
    h d c ⟨(hpending d).mpr hd.1, hd.2⟩ ⟨(hpending c).mpr hc.1, hc.2⟩
  cases h with
  | quiet h => exact .quiet h
  | lift h => exact .lift h
  | clear hpos hserved hfree => exact .clear hpos hserved hfree
  | abandon hd hsettled => exact .abandon hd (fun h => hsettled (hone h))
  | settled hd hstands hopen halone hstill =>
    refine .settled hd ?_ (by rw [hschedule]; exact hopen) (fun h => halone (htwins _ h)) (fun h => hstill (hone h))
    rw [World.holds, htable]
    exact hstands
  | reassert hmode henf hfree hpos hdue => exact .reassert hmode henf hfree hpos hdue
  | decide hts hs henf hev hlong => exact .decide hts hs henf hev hlong
  | ban hmode henf hd hts hcode hover hclear hev =>
    exact .ban hmode henf hd hts hcode hover (fun h => hclear (hab _ h)) hev
  | commit hd hts henf he hf hc hp hover hclear hev =>
    exact .commit hd hts henf he hf hc hp hover (fun h => hclear (hab _ h)) hev
  | fail hd hts hp => exact .fail hd hts hp

/-- The second the enforcement pass of a move works with, if it makes one. -/
def Move.passAt (m : Move) (w : World) : Option Int :=
  match m.action with
  | .enforce => w.cycle.findingsAt
  | .setMode _ => some w.now
  | _ => none

/-- What a move begun in `start` may write. -/
inductive Permit (m : Move) (start w : World) (l : Write) : Prop
  | read (ha : m.action = .read) (h : PolicyWrite w l)
  | observe {now : Int} {tables : Tables} (ha : m.action = .observe)
      (hc : start.cycle = .tablesRead now tables) (h : ObserveWrite tables.signedIn now w l)
  | ingest {now : Int} {tables : Tables} {bans : Dict Ip Row} (ha : m.action = .ingest)
      (hc : start.cycle = .observed now tables) (hb : tables.ban = some bans)
      (h : IngestWrite start bans now w l)
  | record {now : Int} {findings : List Finding} (ha : m.action = .record findings)
      (hc : start.cycle.findingsAt = some now) (h : Quiet now w l)
  | pass {now : Int} (hp : m.passAt start = some now)
      (h : EnforceWrite start now (Clears m.script.Reads start now) w l)
  | forget {ip : Ip} (ha : m.action = .forget ip) (h : ForgetWrite ip start.now w l)
  | place {ip : Ip} (ha : m.action = .place ip) (h : PlaceWrite ip start.now w l)
  | mode {mode : Mode} (ha : m.action = .setMode mode) (h : ModeWrite w l)
  | ladder {data : Json} (ha : m.action = .setBanDurations data) (h : LadderWrite w l)
  | maintain {days : Int} (ha : m.action = .maintain days) (h : MaintainWrite days start w l)

/-- Where a move leaves the cycle, ended in `w`. -/
inductive NextCycle (m : Move) (start w : World) : Cycle → Prop
  | idle : NextCycle m start w .idle
  | same : NextCycle m start w start.cycle
  | read {tables : Tables} (ha : m.action = .read)
      (hban : tables.ban = none ∨ tables.ban = some w.rows ∨ tables.ban = some .empty)
      (hsigned : tables.signedIn = none ∨ tables.signedIn = some w.signedIn ∨
        tables.signedIn = some .empty) : NextCycle m start w (.tablesRead start.now tables)
  | observed {now : Int} {tables : Tables} (ha : m.action = .observe)
      (hc : start.cycle = .tablesRead now tables) : NextCycle m start w (.observed now tables)
  | ingested {now : Int} {tables : Tables} (ha : m.action = .ingest)
      (hc : start.cycle = .observed now tables) : NextCycle m start w (.ingested now)
  | recorded {now : Int} {findings : List Finding} (ha : m.action = .record findings)
      (hc : start.cycle.findingsAt = some now) : NextCycle m start w (.recorded now)

theorem nextCycle_raised (m : Move) (start w : World) : NextCycle m start w (m.action.raised start) := by
  cases m.action with
  | read => exact .idle
  | observe => exact .idle
  | ingest => exact .idle
  | record findings => exact .idle
  | enforce => exact .idle
  | _ => exact .same

/-- The end of a move that wrote its way from `start` to `w`. -/
inductive Turn (m : Move) (start w : World) : World → Prop
  | reload : Turn m start w (w.reload m.config)
  | cycle {c : Cycle} (h : NextCycle m start w c) : Turn m start w { w with cycle := c }
  | outside (hw : w = start) : Turn m start w (m.action.outside w)

/-- What no write of a move changes. -/
structure Within (start w : World) : Prop where
  cycle : w.cycle = start.cycle
  clock : w.clock = start.clock
  startedAt : w.startedAt = start.startedAt
  tableExpire : w.tableExpire = start.tableExpire

theorem Within.refl (w : World) : Within w w := ⟨rfl, rfl, rfl, rfl⟩

theorem Within.apply {start w : World} (h : Within start w) (l : Write) : Within start (l.apply w) where
  cycle := by rw [← h.cycle, cycle_apply]
  clock := by rw [← h.clock, clock_apply]
  startedAt := by rw [← h.startedAt, startedAt_apply]
  tableExpire := by rw [← h.tableExpire, tableExpire_apply]

/-- A step of a run whose moves are all taken where `C` holds. -/
def Granted (C : Move → World → Prop) (w : World) (e : Event) (w' : World) : Prop :=
  match e with
  | .write m l => w' = l.apply w ∧ ∃ start, C m start ∧ Within start w ∧ Permit m start w l
  | .turn m => ∃ start, C m start ∧ Within start w ∧ Turn m start w w'

/-- The scripts a move's own leads to: where its reads are answered, theirs are. -/
def From (m : Move) (i : Script) : Prop := m.script.Reads → i.Reads

theorem closed_from (m : Move) : Closed (From m) where
  list := fun i h hr => closed_reads.list i (h hr)
  show_ := fun i h hr => closed_reads.show_ i (h hr)
  set := fun i h hr => closed_reads.set i (h hr)
  clear := fun i h hr => closed_reads.clear i (h hr)
  info := fun i h hr => closed_reads.info i (h hr)
  sql := fun i h hr => closed_reads.sql i (h hr)

theorem readsDone_from {m : Move} (h : m.script.Reads) : ReadsDone (From m) :=
  ⟨fun _ hi => (hi h).1.head, fun _ hi => (hi h).2.head⟩

/-- A stage whose program is `p` and that then leaves the cycle at `c`. -/
theorem wp_thenCycle {α : Type} {I : Script → Prop} {guard guard' : World → Write → Prop} {p : M α} {c : Cycle}
    {m : Move} {start w : World} (h : WP I (By guard) p (fun _ _ => True) (fun _ _ => True) w)
    (hg : ∀ w l, guard w l → guard' w l) (hc : ∀ w, NextCycle m start w c) :
    WP I (By guard') (do let _ ← p; pure c) (fun c w => NextCycle m start w c) (fun _ _ => True) w :=
  WP.bind ((h.guarantee (fun _ _ _ h => ⟨h.1, hg _ _ h.2⟩)).mono (fun _ w _ => WP.pure (hc w))
    (fun _ _ _ => trivial))

theorem wp_program {m : Move} {w : World} {p : M Cycle} (hp : m.action.program w = some p) :
    WP (From m) (By (Permit m w)) p (fun c w' => NextCycle m w w' c) (fun _ _ => True) w := by
  have hI := closed_from m
  cases ha : m.action with
  | read =>
    rw [ha] at hp
    cases hc : w.cycle with
    | idle =>
      simp only [Action.program, hc, Option.some.injEq] at hp
      subst hp
      have hrefresh : WP (From m) (By PolicyWrite) refreshBanPolicy (fun _ _ => True) (fun _ _ => True) w :=
        wp_refreshBanPolicy hI (fun _ _ => trivial) (fun _ _ _ => trivial)
      refine WP.bind ((hrefresh.guarantee (fun _ _ _ h => ⟨h.1, .read ha h.2⟩)).mono (fun _ w₁ _ => ?_)
        (fun _ _ _ => trivial))
      refine WP.bind (wp_readTables hI (fun tables hread => WP.pure ?_) (fun _ _ => trivial))
      cases hread with
      | listed hban hsigned =>
        exact .read ha (hban.elim (fun h => Or.inr (Or.inl h)) (fun h => Or.inl h.1))
          (hsigned.elim (fun h => Or.inr (Or.inl h)) (fun h => Or.inl h.1))
      | unlisted _ => exact .read ha (Or.inr (Or.inr rfl)) (Or.inr (Or.inr rfl))
    | _ => simp [Action.program, hc] at hp
  | observe =>
    rw [ha] at hp
    cases hc : w.cycle with
    | tablesRead now tables =>
      simp only [Action.program, hc, Option.some.injEq] at hp
      subst hp
      exact wp_thenCycle (wp_observeTables hI (fun _ _ _ => trivial) (fun _ _ _ => trivial))
        (fun _ _ h => .observe ha hc h) (fun _ => .observed ha hc)
    | _ => simp [Action.program, hc] at hp
  | ingest =>
    rw [ha] at hp
    cases hc : w.cycle with
    | observed now tables =>
      simp only [Action.program, hc, Option.some.injEq] at hp
      subst hp
      unfold ingestTables
      cases hb : tables.ban with
      | none => exact WP.bind (WP.pure (WP.pure (.ingested ha hc)))
      | some bans =>
        exact wp_thenCycle (wp_ingestBans hI (fun _ _ => trivial) (fun _ _ _ => trivial))
          (fun _ _ h => .ingest ha hc hb h) (fun _ => .ingested ha hc)
    | _ => simp [Action.program, hc] at hp
  | record findings =>
    rw [ha] at hp
    cases hc : w.cycle.findingsAt with
    | none => simp [Action.program, hc] at hp
    | some now =>
      simp only [Action.program, hc, Option.some.injEq] at hp
      subst hp
      have h : WP (From m) (By (Quiet now)) (ingestFindings findings now) (fun _ _ => True)
          (fun _ _ => True) w :=
        wp_ingestFindings hI (fun _ _ h => h) (fun _ _ => trivial) (fun _ _ _ => trivial)
      exact wp_thenCycle h (fun _ _ h => .record ha hc h) (fun _ => .recorded ha hc)
  | enforce =>
    rw [ha] at hp
    cases hc : w.cycle.findingsAt with
    | none => simp [Action.program, hc] at hp
    | some now =>
      simp only [Action.program, hc, Option.some.injEq] at hp
      subst hp
      exact wp_thenCycle (wp_applyEnforcement hI (fun _ _ => trivial) (fun _ _ _ => trivial))
        (fun _ _ h => .pass (by rw [Move.passAt, ha]; exact hc) (h.weaken rfl rfl (fun _ => rfl) (fun _ => Or.imp_left readsDone_from))) (fun _ => .idle)
  | forget ip =>
    rw [ha] at hp
    simp only [Action.program, Option.some.injEq] at hp
    subst hp
    exact wp_thenCycle (wp_forgetBan hI (fun _ _ _ _ => trivial) (fun _ _ _ => trivial))
      (fun _ _ h => .forget ha h) (fun _ => .same)
  | place ip =>
    rw [ha] at hp
    simp only [Action.program, Option.some.injEq] at hp
    subst hp
    exact wp_thenCycle (wp_placeManualBan hI (fun _ _ _ _ _ _ _ => trivial) (fun _ _ _ _ _ => trivial))
      (fun _ _ h => .place ha h) (fun _ => .same)
  | setMode mode =>
    rw [ha] at hp
    simp only [Action.program, Option.some.injEq] at hp
    subst hp
    have hset : WP (From m) (By (Permit m w)) (setMode mode w.now) (fun _ _ => True) (fun _ _ => True) w := by
      refine WP.bind (wp_setState hI (.mode ha .save) ?_ (fun _ => trivial))
      refine WP.bind (wp_remember (.mode ha .follow) ?_)
      exact (wp_applyEnforcement hI (fun _ _ => trivial) (fun _ _ _ => trivial)).guarantee
        (fun _ _ _ h => ⟨h.1, .pass (by rw [Move.passAt, ha]) (h.2.weaken rfl rfl (fun _ => rfl) (fun _ => Or.imp_left readsDone_from))⟩)
    exact wp_thenCycle hset (fun _ _ h => h) (fun _ => .same)
  | setBanDurations data =>
    rw [ha] at hp
    simp only [Action.program, Option.some.injEq] at hp
    subst hp
    exact wp_thenCycle (wp_setBanDurations hI) (fun _ _ h => .ladder ha h) (fun _ => .same)
  | maintain days =>
    rw [ha] at hp
    simp only [Action.program, Option.some.injEq] at hp
    subst hp
    exact wp_thenCycle (wp_maintain hI) (fun _ _ h => .maintain ha h) (fun _ => .same)
  | _ =>
    rw [ha] at hp
    cases hp

theorem trace_granted {C : Move → World → Prop} {m : Move} {w : World} (hC : C m w) :
    Steps (Granted C) w (m.trace w) := by
  unfold Move.trace
  cases hp : m.action.program w with
  | none =>
    refine ⟨⟨w, hC, Within.refl w, ?_⟩, trivial⟩
    change Turn m w w (match m.action with
      | .start => w.reload m.config
      | a => a.outside w)
    split
    · exact .reload
    · exact .outside rfl
  | some p =>
    obtain ⟨-, hsteps, hends⟩ := wp_program hp m.script (fun h => h)
    -- The log, or what a crash left of it.
    have hcut : ∀ writes, writes <:+ (p m.script w).log →
        Steps (Granted C) w (writes.map (fun e => (Event.write m e.1, e.2))) ∧
          Within w (lastState w writes) := by
      intro writes hsuf
      have hwithin := (hsteps.suffix hsuf).strengthen (I := Within w) (Within.refl w)
        (fun s l t hs h => h.1 ▸ hs.apply l)
      refine ⟨(hwithin.mono (fun s l t h => ?_)).map, (hsteps.suffix hsuf).keeps (Within.refl w)
        (fun s l t hs h => h.1 ▸ hs.apply l)⟩
      exact ⟨h.2.1, w, hC, h.1, h.2.2⟩
    cases hk : m.crash with
    | some k =>
      obtain ⟨hlog, hw⟩ := hcut _ (List.drop_suffix _ _)
      refine ⟨⟨w, hC, ?_, ?_⟩, hlog⟩
      · rw [lastState_map]
        exact hw
      · rw [lastState_map]
        exact .reload
    | none =>
      obtain ⟨hlog, hw⟩ := hcut _ (List.suffix_refl _)
      refine ⟨⟨w, hC, ?_, ?_⟩, hlog⟩
      · rw [lastState_map]
        exact hw
      · rw [lastState_map]
        cases hr : (p m.script w).result with
        | ok c =>
          rw [hr] at hends
          exact .cycle hends
        | error e =>
          exact .cycle (nextCycle_raised m w _)

theorem run_granted {C : Move → World → Prop} {w : World} {ms : List Move} (h : Meets C w ms) :
    Steps (Granted C) w (run w ms) := by
  induction ms generalizing w with
  | nil => trivial
  | cons m ms ih => exact steps_append.mpr ⟨ih h.2, trace_granted h.1⟩

theorem meets_any (w : World) (ms : List Move) : Meets (fun _ _ => True) w ms := by
  induction ms generalizing w with
  | nil => trivial
  | cons m ms ih => exact ⟨trivial, ih (m.after w)⟩

theorem after_of_wp {m : Move} {w : World} {p : M Cycle} {I : Script → Prop}
    {G : World → Write → World → Prop} {Q : Cycle → World → Prop} (hp : m.action.program w = some p)
    (hcrash : m.crash = none) (h : WP I G p Q (fun _ _ => False) w) (hi : I m.script) :
    ∃ c w', m.after w = { w' with cycle := c } ∧ Q c w' := by
  obtain ⟨-, -, hends⟩ := h m.script hi
  unfold Move.after Move.trace
  rw [hp]
  simp only [hcrash]
  cases hr : (p m.script w).result with
  | error e =>
    rw [hr] at hends
    exact hends.elim
  | ok c =>
    rw [hr] at hends
    exact ⟨c, _, rfl, hends⟩

/-- A move that runs one function of the engine, when that returns. -/
theorem after_of_result {m : Move} {w : World} {α : Type} {q : M α} {c : Cycle} {a : α}
    (hp : m.action.program w = some (do let _ ← q; pure c)) (hcrash : m.crash = none)
    (hr : (q m.script w).result = .ok a) : m.after w = { q.final m.script w with cycle := c } := by
  have hb : (do let _ ← q; pure c : M Cycle) m.script w =
      ⟨.ok c, (q m.script w).oracle, (q m.script w).log⟩ := by
    change Prog.bind q (fun _ => Prog.pure c) m.script w = _
    unfold Prog.bind
    rcases hq : q m.script w with ⟨r, j, log⟩
    rw [hq] at hr
    cases hr
    rfl
  unfold Move.after Move.trace
  rw [hp]
  simp only [hcrash, hb]
  rfl

/-! ## What a step does to the schedule and to the decisions -/

section Steps

variable {m : Move} {start w w' : World} {l : Write}

theorem Within.passAt (h : Within start w) : m.passAt w = m.passAt start := by
  unfold Move.passAt
  split
  · rw [h.cycle]
  · rw [World.now, h.clock]
    rfl
  · rfl

/-- The end of a move leaves the database alone. -/
theorem Turn.db (h : Turn m start w w') : w'.db = w.db := by
  cases h with
  | reload => rfl
  | cycle _ => rfl
  | outside _ =>
    cases m.action with
    | legacyBan ip code =>
      unfold Action.outside
      dsimp only
      split <;> rfl
    | _ => rfl

theorem IngestWrite.bannedUntil {bans : Dict Ip Row} {now : Int} (h : IngestWrite start bans now w l)
    (ip : Ip) : (l.apply w).db.bannedUntil ip = w.db.bannedUntil ip := by
  cases h with
  | quiet h => exact h.calm.bannedUntil ip
  | _ => rfl

/-- The schedule of an address changes by a pass that clears or commits it, or by hand. -/
theorem Permit.bannedUntil (h : Permit m start w l) (ip : Ip) :
    (l.apply w).db.bannedUntil ip = w.db.bannedUntil ip ∨
      m.action = .forget ip ∧ l = .sql (.clearBan ip) ∨
      ∃ now, m.passAt start = some now ∧ EnforceWrite start now (Clears m.script.Reads start now) w l ∧
        (l = .sql (.clearBan ip) ∨ ∃ id till ts detail, l = .sql (.commitBan id ip till ts detail)) := by
  cases h with
  | read _ h => cases h <;> exact Or.inl rfl
  | observe _ _ h => exact Or.inl (h.calm.bannedUntil ip)
  | record _ _ h => exact Or.inl (h.calm.bannedUntil ip)
  | ingest _ _ _ h => exact Or.inl (h.bannedUntil ip)
  | place _ h =>
    cases h with
    | quiet h => exact Or.inl (h.calm.bannedUntil ip)
    | _ => exact Or.inl rfl
  | mode _ h => cases h <;> exact Or.inl rfl
  | ladder _ h => cases h <;> exact Or.inl rfl
  | maintain _ h =>
    cases h with
    | retain _ _ => exact Or.inl (Database.bannedUntil_applyRetention _ _)
    | prune _ _ _ => exact Or.inl rfl
  | @forget j ha h =>
    cases h with
    | quiet h => exact Or.inl (h.calm.bannedUntil ip)
    | clear =>
      by_cases hj : ip = j
      · subst hj
        exact Or.inr (Or.inl ⟨ha, rfl⟩)
      · exact Or.inl (by simp [Write.apply, DbWrite.apply, Database.bannedUntil_clearBan, hj])
    | _ => exact Or.inl rfl
  | pass hp h =>
    have hpass := h
    cases h with
    | quiet h => exact Or.inl (h.calm.bannedUntil ip)
    | @clear j hpos hserved hfree =>
      by_cases hj : ip = j
      · subst hj
        exact Or.inr (Or.inr ⟨_, hp, hpass, Or.inl rfl⟩)
      · exact Or.inl (by simp [Write.apply, DbWrite.apply, Database.bannedUntil_clearBan, hj])
    | @settled d detail _ _ _ _ _ =>
      by_cases hj : ip = d.ip
      · subst hj
        exact Or.inr (Or.inr ⟨_, hp, hpass, Or.inr ⟨_, _, _, _, rfl⟩⟩)
      · exact Or.inl (by simp [Write.apply, DbWrite.apply, Database.bannedUntil_commitBan, hj])
    | @commit d e detail _ _ _ _ _ _ _ _ _ _ =>
      by_cases hj : ip = d.ip
      · subst hj
        exact Or.inr (Or.inr ⟨_, hp, hpass, Or.inr ⟨_, _, _, _, rfl⟩⟩)
      · exact Or.inl (by simp [Write.apply, DbWrite.apply, Database.bannedUntil_commitBan, hj])
    | _ => exact Or.inl rfl

/-- A decision is pending because it was, or because a pass has just written it down. -/
theorem Permit.pending (h : Permit m start w l) {d : Decision} (hd : Pending (l.apply w) d) :
    Pending w d ∨ ∃ now c, m.passAt start = some now ∧ l = .sql (.recordDecision c) ∧
      d = { c with id := w.db.nextDecisionId } ∧
      EnforceWrite start now (Clears m.script.Reads start now) w l := by
  have calm : Calm w (l.apply w) → Pending w d := fun h => ⟨(h.pending d hd.2).mp hd.1, hd.2⟩
  cases h with
  | read _ h => cases h <;> exact Or.inl hd
  | observe _ _ h => exact Or.inl (calm h.calm)
  | record _ _ h => exact Or.inl (calm h.calm)
  | ingest _ _ _ h =>
    cases h with
    | quiet h => exact Or.inl (calm h.calm)
    | _ => exact Or.inl hd
  | place _ h =>
    cases h with
    | quiet h => exact Or.inl (calm h.calm)
    | _ => exact Or.inl hd
  | mode _ h => cases h <;> exact Or.inl hd
  | ladder _ h => cases h <;> exact Or.inl hd
  | maintain _ h =>
    cases h with
    | retain _ _ => exact Or.inl hd
    | prune _ _ _ => exact Or.inl ⟨List.mem_of_mem_filter (List.mem_of_mem_filter hd.1), hd.2⟩
  | forget _ h =>
    cases h with
    | quiet h => exact Or.inl (calm h.calm)
    | _ => exact Or.inl hd
  | pass hp h =>
    have hpass := h
    cases h with
    | quiet h => exact Or.inl (calm h.calm)
    | abandon _ _ => exact Or.inl ((pending_settleDecision DecisionOutcome.noConfusion).mp hd).1
    | settled _ _ _ _ _ => exact Or.inl (pending_commitBan.mp hd).1
    | @decide c hts hs henf hev hlong =>
      rcases Database.mem_recordDecision.mp hd.1 with hmem | hnew
      · exact Or.inl ⟨hmem, hd.2⟩
      · exact Or.inr ⟨_, c, hp, rfl, hnew, hpass⟩
    | commit _ _ _ _ _ _ _ _ _ _ => exact Or.inl (pending_commitBan.mp hd).1
    | fail _ _ _ => exact Or.inl ((pending_settleDecision DecisionOutcome.noConfusion).mp hd).1
    | _ => exact Or.inl hd

/-- An entry of this daemon's own is put into the table. -/
def Write.adaptive (ip : Ip) : Write → Bool
  | .setTable j placing => j = ip ∧ placing.code = adaptiveBanCode
  | _ => false

/-- Only a pass puts this daemon's own entries into the table. -/
theorem Permit.adaptive {ip : Ip} (h : Permit m start w l) (hl : l.adaptive ip) :
    ∃ now, m.passAt start = some now ∧ EnforceWrite start now (Clears m.script.Reads start now) w l := by
  have quiet : ∀ {now : Int}, Quiet now w l → False := by
    intro now h
    cases h <;> cases hl
  cases h with
  | pass hp h => exact ⟨_, hp, h⟩
  | read _ h => cases h <;> cases hl
  | observe _ _ h =>
    cases h with
    | quiet h => exact (quiet h).elim
    | mark _ => cases hl
  | record _ _ h => exact (quiet h).elim
  | ingest _ _ _ h =>
    cases h with
    | quiet h => exact (quiet h).elim
    | restore _ _ _ _ =>
      simp [Write.adaptive, Placing.code, manualBanCode, adaptiveBanCode] at hl
    | _ => cases hl
  | forget _ h =>
    cases h with
    | quiet h => exact (quiet h).elim
    | _ => cases hl
  | place _ h =>
    cases h with
    | quiet h => exact (quiet h).elim
    | set _ => simp [Write.adaptive, Placing.code, manualBanCode, adaptiveBanCode] at hl
    | _ => cases hl
  | mode _ h => cases h <;> cases hl
  | ladder _ h => cases h <;> cases hl
  | maintain _ h => cases h <;> cases hl

end Steps

end EasyHaProxy.Guardd
