import EasyHaProxy.Lib.Dict
import EasyHaProxy.Lib.Machine
import EasyHaProxy.Guardd.AccessLog
import EasyHaProxy.Guardd.RequestSearch

/-! A user agent is stored once and a request refers to it by id. Ids are resolved through a cache, batch by
batch; an agent whose newest request is older than the oldest stored one is swept. -/
namespace EasyHaProxy.Guardd.RequestAgents

/-- A queued record, column by column. -/
structure Pending where
  ts : Int
  requestId : String
  client : String
  status : Int
  frontend : String
  backend : String
  server : String
  method : String
  host : String
  path : String
  bytesOut : Int
  durationMs : Int
  badRequest : Int
  responseMs : Int
  times : String
  term : String
  banReason : String
  agent : String
  deriving DecidableEq

/-- A row of `requests`. The table has `agentId`; `request.agent` is what the line said. -/
structure Stored where
  request : Pending
  agentId : Nat
  deriving DecidableEq

/-- A row of `agents`, less its text. -/
structure Agent where
  id : Nat
  lastTs : Int
  deriving DecidableEq

/-- `RequestLog`: the requests in the order of their ids, the agents by their text, and the cache. -/
structure RequestLog where
  requests : List Stored
  agents : Dict String Agent
  cache : Dict String Nat
  pending : List Pending
  paused : Bool
  deriving DecidableEq

/-! ## Ingest -/

/-- The queued record of a parsed line. -/
def pendingOf (record : ParsedRequest) (ts : Option ℚ) (now : Int) : Pending :=
  let backend := record.backend.toList.takeWhile (· ≠ '/')
  let server := String.ofList (record.backend.toList.drop (backend.length + 1))
  { ts := match ts with
      | some stamp => if stamp ≠ 0 then RequestSearch.truncate stamp else if record.ts ≠ 0 then record.ts else now
      | none => if record.ts ≠ 0 then record.ts else now
    requestId := truncate 64 record.requestId
    client := truncate 45 record.clientIp
    status := record.status
    frontend := truncate 64 record.frontend
    backend := truncate 64 (String.ofList backend)
    server := if server = "" ∨ server = "<NOSRV>" then "" else truncate 64 server
    method := truncate 10 record.method
    host := truncate 128 record.host
    path := truncate 200 record.path
    bytesOut := record.bytesOut
    durationMs := record.durationMs
    badRequest := if record.badRequest then 1 else 0
    responseMs := if 0 ≤ record.responseMs then record.responseMs else -1
    times := truncate 40 record.times
    term := truncate 8 record.term
    banReason := truncate 160 record.banReason
    agent := truncate 128 record.userAgent }

/-- `add`. -/
def add (s : RequestLog) (record : ParsedRequest) (ts : Option ℚ) (now : Int) : RequestLog :=
  { s with pending := s.pending ++ [pendingOf record ts now] }

/-- The newest positive time of every agent of a batch. -/
def newest (rows : List Pending) : Dict String Int :=
  rows.foldl (fun d row => if row.agent ≠ "" ∧ d.getD row.agent 0 < row.ts then d.set row.agent row.ts else d)
    Dict.empty

def unknown (rows : List Pending) (cache : Dict String Nat) : List String :=
  (newest rows).keys.filter fun agent => !cache.contains agent

/-- The cache, or nothing when there is something to look up and it has grown too large. -/
def keptCache (rows : List Pending) (cache : Dict String Nat) : Dict String Nat :=
  if unknown rows cache ≠ [] ∧ 20000 < cache.entries.length then Dict.empty else cache

/-- The id SQLite gives a new row: one more than the largest. -/
def nextId (agents : Dict String Agent) : Nat := (agents.entries.map fun e => e.2.id).foldl max 0 + 1

/-- `INSERT OR IGNORE INTO agents`. -/
def insertOrIgnore (agents : Dict String Agent) (agent : String) (ts : Int) : Dict String Agent :=
  if agents.contains agent then agents else agents.set agent ⟨nextId agents, ts⟩

def insertAll (agents : Dict String Agent) (stamps : Dict String Int) (unknown : List String) :
    Dict String Agent :=
  unknown.foldl (fun agents agent => insertOrIgnore agents agent (stamps.getD agent 0)) agents

/-- `SELECT id, agent FROM agents WHERE agent IN …`, into the cache. -/
def selectIds (agents : Dict String Agent) (cache : Dict String Nat) (unknown : List String) :
    Dict String Nat :=
  unknown.foldl (fun cache agent =>
    match agents.get? agent with
    | some row => cache.set agent row.id
    | none => cache) cache

/-- `UPDATE agents SET last_ts = ? WHERE id = ? AND last_ts < ?`. -/
def touch (agents : Dict String Agent) (id : Nat) (stamp : Int) : Dict String Agent :=
  agents.mapValues fun _ row => if row.id = id ∧ row.lastTs < stamp then { row with lastTs := stamp } else row

def touchAll (agents : Dict String Agent) (cache : Dict String Nat) (stamps : List (String × Int)) :
    Dict String Agent :=
  stamps.foldl (fun agents e =>
    match cache.get? e.1 with
    | some id => touch agents id e.2
    | none => agents) agents

/-- The row as it is inserted. -/
def withAgentId (cache : Dict String Nat) (request : Pending) : Stored :=
  ⟨request, if request.agent ≠ "" then cache.getD request.agent 0 else 0⟩

/-- A number SQLite can hold; for others the binding raises `OverflowError`. -/
def fits (n : Int) : Bool := decide (-2 ^ 63 ≤ n) && decide (n < 2 ^ 63)

def Pending.fits (p : Pending) : Bool :=
  [p.ts, p.status, p.bytesOut, p.durationMs, p.badRequest, p.responseMs].all RequestAgents.fits

/-- The transaction of `flush`, with `_with_agent_ids`. A database error empties the cache; an
`OverflowError`, which `flush` does not catch, leaves it as it was filled. -/
def write (s : RequestLog) (rows : List Pending) (fails : Bool) : RequestLog :=
  let stamps := newest rows
  let asked := unknown rows s.cache
  let kept := keptCache rows s.cache
  if fails then { s with cache := Dict.empty }
  else if asked.any fun agent => !fits (stamps.getD agent 0) then { s with cache := kept }
  else
    let agents := insertAll s.agents stamps asked
    let cache := selectIds agents kept asked
    if rows.all Pending.fits then
      { s with
        requests := s.requests ++ rows.map (withAgentId cache)
        agents := touchAll agents cache stamps.entries
        cache := cache }
    else { s with cache := cache }

/-- `flush`, less the pass that may follow it. -/
def flush (s : RequestLog) (fails : Bool) : RequestLog :=
  let taken := { s with pending := [] }
  if s.pending ≠ [] ∧ ¬ s.paused then write taken s.pending fails else taken

/-! ## The budget -/

/-- The free space against the reserve: below it, well above it, or neither. -/
inductive Space
  | low | recovered | between
  deriving DecidableEq

/-- What a pass meets: which of its transactions go through, how many tenths are dropped for the
size, and the free space. -/
structure Pass where
  now : Int
  retentionDays : Int
  expires : Bool
  rounds : Nat
  sweeps : Bool
  space : Space
  deriving DecidableEq

def dropTenth (rows : List Stored) : List Stored := rows.drop (max 1 (rows.length / 10))

def remaining (p : Pass) (rows : List Stored) : List Stored :=
  dropTenth^[p.rounds]
    (if p.expires then rows.filter fun row => decide (p.now - p.retentionDays * 86400 ≤ row.request.ts) else rows)

/-- The agents that are not older than the oldest row. -/
def sweep (rows : List Stored) (agents : Dict String Agent) : Dict String Agent :=
  match rows.head? with
  | some first => agents.filter fun _ row => decide (first.request.ts ≤ row.lastTs)
  | none => agents

/-- `_maintain`. -/
def maintain (s : RequestLog) (p : Pass) : RequestLog :=
  let requests := remaining p s.requests
  let agents := if p.sweeps then sweep requests s.agents else s.agents
  { s with
    requests := requests
    agents := agents
    cache := if agents.entries.length < s.agents.entries.length then Dict.empty else s.cache
    paused := match p.space with
      | .low => true
      | .recovered => false
      | .between => s.paused }

inductive Op
  | add (record : ParsedRequest) (ts : Option ℚ) (now : Int)
  | flush (fails : Bool)
  | maintain (p : Pass)

def step (s : RequestLog) : Op → RequestLog
  | .add record ts now => add s record ts now
  | .flush fails => flush s fails
  | .maintain p => maintain s p

def agentText (agents : Dict String Agent) (id : Nat) : Option String :=
  (agents.entries.find? fun e => e.2.id == id).map Prod.fst

/-- Every stored request refers to its own user agent. -/
def OwnAgents (s : RequestLog) : Prop :=
  ∀ row ∈ s.requests, row.request.agent ≠ "" → agentText s.agents row.agentId = some row.request.agent

/-! ## The newest times of a batch -/

variable {rows : List Pending} {agents grown : Dict String Agent} {cache : Dict String Nat}
  {agent : String} {row : Agent}

theorem newest_concat (rows : List Pending) (p : Pending) :
    newest (rows ++ [p]) =
      if p.agent ≠ "" ∧ (newest rows).getD p.agent 0 < p.ts then (newest rows).set p.agent p.ts
      else newest rows := by
  rw [newest, List.foldl_append]
  rfl

/-- The time kept for an agent is positive and is that of one of its rows. -/
theorem newest_mem {stamp : Int} (h : (newest rows).get? agent = some stamp) :
    agent ≠ "" ∧ 0 < stamp ∧ ∃ p ∈ rows, p.agent = agent ∧ p.ts = stamp := by
  induction rows using List.reverseRecOn generalizing stamp with
  | nil => cases h
  | append_singleton rows p ih =>
    rw [newest_concat] at h
    have hold (hget : (newest rows).get? agent = some stamp) :
        agent ≠ "" ∧ 0 < stamp ∧ ∃ q ∈ rows ++ [p], q.agent = agent ∧ q.ts = stamp := by
      obtain ⟨hne, hpos, q, hq, hagent⟩ := ih hget
      exact ⟨hne, hpos, q, List.mem_append_left _ hq, hagent⟩
    split at h
    · rename_i hnew
      rw [Dict.get?_set] at h
      split at h
      · rename_i heq
        subst heq
        obtain rfl : p.ts = stamp := by simpa using h
        refine ⟨hnew.1, ?_, p, by simp, rfl, rfl⟩
        cases hget : (newest rows).get? p.agent with
        | none => simpa [Dict.getD, hget] using hnew.2
        | some kept =>
          have hlt : kept < p.ts := by simpa [Dict.getD, hget] using hnew.2
          exact lt_trans (ih hget).2.1 hlt
      · exact hold h
    · exact hold h

theorem ts_le_newest {p : Pending} (hp : p ∈ rows) (hne : p.agent ≠ "") :
    p.ts ≤ (newest rows).getD p.agent 0 := by
  induction rows using List.reverseRecOn with
  | nil => cases hp
  | append_singleton rows q ih =>
    rw [newest_concat]
    split
    · rename_i hnew
      rw [Dict.getD, Dict.get?_set]
      rcases List.mem_append.mp hp with hp | hp
      · have hle := ih hp
        split
        · rename_i heq
          rw [heq] at hle
          exact le_trans hle hnew.2.le
        · exact hle
      · rw [List.mem_singleton.mp hp, if_pos rfl]
        exact le_rfl
    · rename_i hold
      rcases List.mem_append.mp hp with hp | hp
      · exact ih hp
      · obtain rfl := List.mem_singleton.mp hp
        exact not_lt.mp fun hlt => hold ⟨hne, hlt⟩

theorem mem_newest_keys : agent ∈ (newest rows).keys ↔ agent ≠ "" ∧ ∃ p ∈ rows, p.agent = agent ∧ 0 < p.ts := by
  rw [Dict.mem_keys, Option.isSome_iff_exists]
  constructor
  · rintro ⟨stamp, hget⟩
    obtain ⟨hne, hpos, p, hp, hagent, rfl⟩ := newest_mem hget
    exact ⟨hne, p, hp, hagent, hpos⟩
  · rintro ⟨hne, p, hp, rfl, hpos⟩
    have hle := ts_le_newest hp hne
    cases hget : (newest rows).get? p.agent with
    | none =>
      rw [Dict.getD, hget, Option.getD_none] at hle
      omega
    | some stamp => exact ⟨stamp, rfl⟩

theorem mem_unknown : agent ∈ unknown rows cache ↔
    (agent ≠ "" ∧ ∃ p ∈ rows, p.agent = agent ∧ 0 < p.ts) ∧ cache.get? agent = none := by
  rw [unknown, List.mem_filter, mem_newest_keys, Bool.not_eq_true', Dict.contains_eq_false]

/-! ## The agents table -/

/-- Ids tell agents apart, and the times are not negative. -/
structure Sound (agents : Dict String Agent) : Prop where
  apart : ∀ a b r r', agents.get? a = some r → agents.get? b = some r' → r.id = r'.id → a = b
  nonneg : ∀ a r, agents.get? a = some r → 0 ≤ r.lastTs

/-- Every agent keeps its id, and its time does not go back. -/
def Grown (agents grown : Dict String Agent) : Prop :=
  ∀ a r, agents.get? a = some r → ∃ r', grown.get? a = some r' ∧ r'.id = r.id ∧ r.lastTs ≤ r'.lastTs

theorem Grown.refl (agents : Dict String Agent) : Grown agents agents :=
  fun _ r h => ⟨r, h, rfl, le_rfl⟩

theorem Grown.trans {last : Dict String Agent} (h : Grown agents grown) (h' : Grown grown last) :
    Grown agents last := by
  intro a r hr
  obtain ⟨r₁, hr₁, hid₁, hts₁⟩ := h a r hr
  obtain ⟨r₂, hr₂, hid₂, hts₂⟩ := h' a r₁ hr₁
  exact ⟨r₂, hr₂, hid₂.trans hid₁, le_trans hts₁ hts₂⟩

theorem le_foldl_max {l : List Nat} {m n : Nat} (h : n ∈ l ∨ n ≤ m) : n ≤ l.foldl max m := by
  induction l generalizing m with
  | nil => simpa using h
  | cons x l ih =>
    refine ih ?_
    rcases h with h | h
    · rcases List.mem_cons.mp h with rfl | h
      · exact Or.inr (le_max_right _ _)
      · exact Or.inl h
    · exact Or.inr (le_max_of_le_left h)

theorem id_lt_nextId (h : agents.get? agent = some row) : row.id < nextId agents := by
  have hmem : row.id ∈ agents.entries.map fun e => e.2.id := List.mem_map.mpr ⟨_, Dict.mem_entries.mpr h, rfl⟩
  exact Nat.lt_succ_of_le (le_foldl_max (Or.inl hmem))

theorem insertOrIgnore_spec (h : Sound agents) (agent : String) {ts : Int} (hts : 0 ≤ ts) :
    Sound (insertOrIgnore agents agent ts) ∧ Grown agents (insertOrIgnore agents agent ts) ∧
      ∃ r, (insertOrIgnore agents agent ts).get? agent = some r := by
  unfold insertOrIgnore
  split
  · rename_i hin
    exact ⟨h, Grown.refl _, Dict.contains_iff.mp hin⟩
  · rename_i hout
    have hnone : agents.get? agent = none := by simpa [Dict.contains] using hout
    refine ⟨⟨?_, ?_⟩, ?_, _, by rw [Dict.get?_set, if_pos rfl]⟩
    · intro a b r r' hr hr' hid
      rw [Dict.get?_set] at hr hr'
      split at hr <;> split at hr'
      · simp_all
      · obtain rfl := Option.some_inj.mp hr
        have := id_lt_nextId hr'
        dsimp only at hid
        omega
      · obtain rfl := Option.some_inj.mp hr'
        have := id_lt_nextId hr
        dsimp only at hid
        omega
      · exact h.apart a b r r' hr hr' hid
    · intro a r hr
      rw [Dict.get?_set] at hr
      split at hr
      · obtain rfl := Option.some_inj.mp hr
        exact hts
      · exact h.nonneg a r hr
    · intro a r hr
      have hne : a ≠ agent := by
        rintro rfl
        simp [hnone] at hr
      exact ⟨r, by rw [Dict.get?_set, if_neg hne, hr], rfl, le_rfl⟩

theorem insertAll_spec {stamps : Dict String Int} (hstamps : ∀ a, 0 ≤ stamps.getD a 0) (asked : List String)
    (h : Sound agents) :
    Sound (insertAll agents stamps asked) ∧ Grown agents (insertAll agents stamps asked) ∧
      ∀ a ∈ asked, ∃ r, (insertAll agents stamps asked).get? a = some r := by
  induction asked generalizing agents with
  | nil => exact ⟨h, Grown.refl _, by simp⟩
  | cons a asked ih =>
    obtain ⟨hsound, hgrown, hin⟩ := insertOrIgnore_spec h a (hstamps a)
    obtain ⟨hsound', hgrown', hin'⟩ := ih hsound
    refine ⟨hsound', hgrown.trans hgrown', ?_⟩
    intro b hb
    rcases List.mem_cons.mp hb with rfl | hb
    · obtain ⟨r, hr⟩ := hin
      obtain ⟨r', hr', -⟩ := hgrown' b r hr
      exact ⟨r', hr'⟩
    · exact hin' b hb

theorem get?_selectIds (asked : List String) :
    (selectIds agents cache asked).get? agent =
      if agent ∈ asked then ((agents.get? agent).map Agent.id).or (cache.get? agent) else cache.get? agent := by
  induction asked generalizing cache with
  | nil => rfl
  | cons a asked ih =>
    rw [selectIds, List.foldl_cons, ← selectIds, ih]
    cases hrow : agents.get? a with
    | none =>
      by_cases heq : agent = a
      · subst heq
        simp [hrow]
      · simp [heq]
    | some r =>
      dsimp only
      rw [Dict.get?_set]
      by_cases heq : agent = a
      · subst heq
        simp [hrow]
      · simp [heq]

theorem touch_spec (h : Sound agents) (id : Nat) (stamp : Int) :
    Sound (touch agents id stamp) ∧ Grown agents (touch agents id stamp) ∧
      ∀ a r, (touch agents id stamp).get? a = some r → r.id = id → stamp ≤ r.lastTs := by
  have hget (a : String) (r : Agent) (hr : (touch agents id stamp).get? a = some r) :
      ∃ r₀, agents.get? a = some r₀ ∧ r.id = r₀.id ∧ r₀.lastTs ≤ r.lastTs ∧ (r.id = id → stamp ≤ r.lastTs) := by
    rw [touch, Dict.get?_mapValues] at hr
    obtain ⟨r₀, hr₀, rfl⟩ := Option.map_eq_some_iff.mp hr
    refine ⟨r₀, hr₀, ?_⟩
    split
    · rename_i hlt
      exact ⟨rfl, hlt.2.le, fun _ => le_rfl⟩
    · rename_i hge
      exact ⟨rfl, le_rfl, fun hid => not_lt.mp fun hlt => hge ⟨hid, hlt⟩⟩
  refine ⟨⟨?_, ?_⟩, ?_, ?_⟩
  · intro a b r r' hr hr' hid
    obtain ⟨r₀, hr₀, hid₀, -⟩ := hget a r hr
    obtain ⟨r₁, hr₁, hid₁, -⟩ := hget b r' hr'
    exact h.apart a b r₀ r₁ hr₀ hr₁ (by omega)
  · intro a r hr
    obtain ⟨r₀, hr₀, -, hle, -⟩ := hget a r hr
    exact le_trans (h.nonneg a r₀ hr₀) hle
  · intro a r hr
    refine ⟨_, by rw [touch, Dict.get?_mapValues, hr]; rfl, ?_, ?_⟩
    · dsimp only
      split <;> rfl
    · dsimp only
      split
      · rename_i hlt
        exact hlt.2.le
      · exact le_rfl
  · intro a r hr
    obtain ⟨-, -, -, -, hle⟩ := hget a r hr
    exact hle

theorem touchAll_spec (stamps : List (String × Int)) (h : Sound agents) :
    Sound (touchAll agents cache stamps) ∧ Grown agents (touchAll agents cache stamps) ∧
      ∀ e ∈ stamps, ∀ row, cache.get? e.1 = some row.id → agents.get? e.1 = some row →
        ∃ r, (touchAll agents cache stamps).get? e.1 = some r ∧ r.id = row.id ∧ e.2 ≤ r.lastTs := by
  induction stamps generalizing agents with
  | nil => exact ⟨h, Grown.refl _, by simp⟩
  | cons e stamps ih =>
    rw [touchAll, List.foldl_cons, ← touchAll]
    cases hid : cache.get? e.1 with
    | none =>
      obtain ⟨hsound, hgrown, hlater⟩ := ih h
      refine ⟨hsound, hgrown, ?_⟩
      intro f hf row hcache
      rcases List.mem_cons.mp hf with rfl | hf
      · rw [hid] at hcache
        cases hcache
      · exact hlater f hf row hcache
    | some i =>
      dsimp only
      obtain ⟨hsound, hgrown, hstamp⟩ := touch_spec h i e.2
      obtain ⟨hsound', hgrown', hlater⟩ := ih hsound
      refine ⟨hsound', hgrown.trans hgrown', ?_⟩
      intro f hf row hcache hrow
      obtain ⟨r₁, hr₁, hid₁, -⟩ := hgrown f.1 row hrow
      rcases List.mem_cons.mp hf with rfl | hf
      · obtain rfl : i = row.id := Option.some_inj.mp (hid.symm.trans hcache)
        obtain ⟨r₂, hr₂, hid₂, hle₂⟩ := hgrown' f.1 r₁ hr₁
        exact ⟨r₂, hr₂, hid₂.trans hid₁, le_trans (hstamp f.1 r₁ hr₁ hid₁) hle₂⟩
      · obtain ⟨r₂, hr₂, hid₂, hle₂⟩ := hlater f hf r₁ (hid₁ ▸ hcache) hr₁
        exact ⟨r₂, hr₂, hid₂.trans hid₁, hle₂⟩

/-! ## What every step keeps -/

/-- The cache agrees with the table. -/
def Cached (agents : Dict String Agent) (cache : Dict String Nat) : Prop :=
  ∀ a id, cache.get? a = some id → ∃ r, agents.get? a = some r ∧ r.id = id

/-- The row has its own agent, which was last seen no earlier. -/
def Referred (agents : Dict String Agent) (row : Stored) : Prop :=
  row.request.agent ≠ "" →
    ∃ r, agents.get? row.request.agent = some r ∧ r.id = row.agentId ∧ row.request.ts ≤ r.lastTs

structure Consistent (s : RequestLog) : Prop where
  sound : Sound s.agents
  cached : Cached s.agents s.cache
  stored : ∀ row ∈ s.requests, Referred s.agents row

theorem cached_empty : Cached agents Dict.empty := by
  intro a id h
  cases h

theorem Cached.mono (h : Cached agents cache) (hg : Grown agents grown) : Cached grown cache := by
  intro a id hid
  obtain ⟨r, hr, rfl⟩ := h a id hid
  obtain ⟨r', hr', hid', -⟩ := hg a r hr
  exact ⟨r', hr', hid'⟩

theorem Referred.mono {row : Stored} (h : Referred agents row) (hg : Grown agents grown) :
    Referred grown row := by
  intro hne
  obtain ⟨r, hr, hid, hts⟩ := h hne
  obtain ⟨r', hr', hid', hts'⟩ := hg _ r hr
  exact ⟨r', hr', hid'.trans hid, le_trans hts hts'⟩

theorem Consistent.ownAgents {s : RequestLog} (h : Consistent s) : OwnAgents s := by
  intro row hrow hne
  obtain ⟨r, hr, hid, -⟩ := h.stored row hrow hne
  have hmem : (row.request.agent, r) ∈ s.agents.entries := Dict.mem_entries.mpr hr
  unfold agentText
  cases hfind : s.agents.entries.find? fun e => e.2.id == row.agentId with
  | none =>
    have := List.find?_eq_none.mp hfind _ hmem
    simp [hid] at this
  | some e =>
    have he : e.2.id = row.agentId := by simpa using List.find?_some hfind
    have hget : s.agents.get? e.1 = some e.2 := Dict.mem_entries.mp (List.mem_of_find?_eq_some hfind)
    rw [Option.map_some, h.sound.apart _ _ _ _ hget hr (he.trans hid.symm)]

/-! ## A batch -/

/-- A new agent comes with a time and the cache is too large: it is emptied before the ids are read. -/
def Emptied (s : RequestLog) : Prop :=
  (∃ p ∈ s.pending, p.agent ≠ "" ∧ s.cache.get? p.agent = none ∧ 0 < p.ts) ∧ 20000 < s.cache.entries.length

/-- Every agent of the batch is in a cache that stays, or is new and comes with a time. -/
def Resolvable (s : RequestLog) : Prop :=
  ∀ p ∈ s.pending, p.agent ≠ "" →
    (s.cache.get? p.agent ≠ none ∧ ¬ Emptied s) ∨
      (s.cache.get? p.agent = none ∧ ∃ q ∈ s.pending, q.agent = p.agent ∧ 0 < q.ts)

/-- A new agent's time is one that SQLite cannot hold. -/
def StampRefused (s : RequestLog) : Prop :=
  ∃ p ∈ s.pending, p.agent ≠ "" ∧ s.cache.get? p.agent = none ∧ 2 ^ 63 ≤ p.ts

/-- Every agent of the batch that comes with a time is in the cache or in the table. -/
def NoneNew (s : RequestLog) : Prop :=
  ∀ p ∈ s.pending, p.agent ≠ "" → 0 < p.ts → s.cache.get? p.agent ≠ none ∨ s.agents.get? p.agent ≠ none

/-- What a flush needs: a batch SQLite can hold with agents that resolve, or, where it cannot, no
new agent to remember. -/
def FlushSafe (s : RequestLog) (fails : Bool) : Prop :=
  s.paused = true ∨ fails = true ∨ StampRefused s ∨
    (s.pending.all Pending.fits = true ∧ Resolvable s) ∨ (s.pending.all Pending.fits = false ∧ NoneNew s)

theorem newest_nonneg (rows : List Pending) (a : String) : 0 ≤ (newest rows).getD a 0 := by
  unfold Dict.getD
  cases hget : (newest rows).get? a with
  | none => exact le_rfl
  | some stamp => exact (newest_mem hget).2.1.le

theorem keptCache_eq (s : RequestLog) (h : ¬ Emptied s) : keptCache s.pending s.cache = s.cache := by
  unfold keptCache
  rw [if_neg]
  rintro ⟨hne, hlen⟩
  obtain ⟨a, ha⟩ := List.exists_mem_of_ne_nil _ hne
  obtain ⟨⟨hagent, p, hp, rfl, hts⟩, hnone⟩ := mem_unknown.mp ha
  exact h ⟨⟨p, hp, hagent, hnone, hts⟩, hlen⟩

theorem Cached.kept (h : Cached agents cache) (rows : List Pending) : Cached agents (keptCache rows cache) := by
  unfold keptCache
  split
  · exact cached_empty
  · exact h

theorem stampRefused_any {s : RequestLog} (h : StampRefused s) :
    ((unknown s.pending s.cache).any fun agent => !fits ((newest s.pending).getD agent 0)) = true := by
  obtain ⟨p, hp, hne, hnone, hts⟩ := h
  rw [List.any_eq_true]
  refine ⟨p.agent, mem_unknown.mpr ⟨⟨hne, p, hp, rfl, by omega⟩, hnone⟩, ?_⟩
  have hle := ts_le_newest hp hne
  simp only [fits, Bool.not_eq_true', Bool.and_eq_false_iff, decide_eq_false_iff_not, not_lt]
  exact Or.inr (le_trans hts hle)

/-- The ids a batch is given. -/
theorem resolved {s : RequestLog} (h : Cached s.agents s.cache) (hr : Resolvable s)
    (hgrown : Grown s.agents grown)
    (hasked : ∀ a ∈ unknown s.pending s.cache, ∃ r, grown.get? a = some r) {p : Pending} (hp : p ∈ s.pending)
    (hne : p.agent ≠ "") :
    ∃ r, grown.get? p.agent = some r ∧
      (selectIds grown (keptCache s.pending s.cache) (unknown s.pending s.cache)).get? p.agent = some r.id := by
  rw [get?_selectIds]
  rcases hr p hp hne with ⟨hin, hstays⟩ | ⟨hnone, hq⟩
  · have hout : p.agent ∉ unknown s.pending s.cache := fun hmem => hin (mem_unknown.mp hmem).2
    obtain ⟨id, hid⟩ := Option.ne_none_iff_exists'.mp hin
    obtain ⟨r, hr, rfl⟩ := h.mono hgrown p.agent id hid
    exact ⟨r, hr, by rw [if_neg hout, keptCache_eq s hstays, hid]⟩
  · have hmem : p.agent ∈ unknown s.pending s.cache := mem_unknown.mpr ⟨⟨hne, hq⟩, hnone⟩
    obtain ⟨r, hr⟩ := hasked p.agent hmem
    exact ⟨r, hr, by rw [if_pos hmem, hr]; rfl⟩

/-- The cache after a batch agrees with the table the batch has filled. -/
theorem Cached.select (h : Cached agents cache) (hgrown : Grown agents grown) {asked : List String}
    (hasked : ∀ a ∈ asked, ∃ r, grown.get? a = some r) : Cached grown (selectIds grown cache asked) := by
  intro a id hid
  rw [get?_selectIds] at hid
  split at hid
  · rename_i hmem
    obtain ⟨r, hr⟩ := hasked a hmem
    refine ⟨r, hr, ?_⟩
    rw [hr] at hid
    exact Option.some_inj.mp hid
  · exact h.mono hgrown a id hid

theorem write_consistent {s : RequestLog} {fails : Bool} (h : Consistent s) (hsafe : FlushSafe s fails)
    (hrun : s.paused = false) : Consistent (write { s with pending := [] } s.pending fails) := by
  obtain ⟨hsound, hcached, hstored⟩ := h
  obtain ⟨hsound₁, hgrown₁, hasked⟩ :=
    insertAll_spec (newest_nonneg s.pending) (unknown s.pending s.cache) hsound
  unfold write
  dsimp only
  split
  · exact ⟨hsound, cached_empty, hstored⟩
  rename_i hgo
  split
  · exact ⟨hsound, hcached.kept _, hstored⟩
  rename_i hstamps
  have hcases : (s.pending.all Pending.fits = true ∧ Resolvable s) ∨
      (s.pending.all Pending.fits = false ∧ NoneNew s) := by
    rcases hsafe with hpaused | hfails | hrefused | hrest
    · simp [hrun] at hpaused
    · exact absurd hfails hgo
    · exact absurd (stampRefused_any hrefused) hstamps
    · exact hrest
  generalize hagents : insertAll s.agents (newest s.pending) (unknown s.pending s.cache) = agents at *
  have hselect := (hcached.kept s.pending).select hgrown₁ hasked
  split
  · rename_i hfit
    have hresolvable : Resolvable s := by
      rcases hcases with hres | hnone
      · exact hres.2
      · simp [hfit] at hnone
    obtain ⟨hsound₂, hgrown₂, htouched⟩ := touchAll_spec (newest s.pending).entries hsound₁
    refine ⟨hsound₂, hselect.mono hgrown₂, ?_⟩
    intro row hrow
    rcases List.mem_append.mp hrow with hrow | hrow
    · exact (hstored row hrow).mono (hgrown₁.trans hgrown₂)
    obtain ⟨p, hp, rfl⟩ := List.mem_map.mp hrow
    intro (hne : p.agent ≠ "")
    obtain ⟨r, hr, hid⟩ := resolved hcached hresolvable hgrown₁ hasked hp hne
    have hagentId : (withAgentId (selectIds agents (keptCache s.pending s.cache)
        (unknown s.pending s.cache)) p).agentId = r.id := by
      unfold withAgentId
      dsimp only
      rw [if_pos hne, Dict.getD_eq_of_get? hid]
    rw [hagentId]
    have hle := ts_le_newest hp hne
    cases hstamp : (newest s.pending).get? p.agent with
    | some stamp =>
      obtain ⟨r₂, hr₂, hid₂, hts₂⟩ := htouched (p.agent, stamp) (Dict.mem_entries.mpr hstamp) r hid hr
      rw [Dict.getD_eq_of_get? hstamp] at hle
      exact ⟨r₂, hr₂, hid₂, le_trans hle hts₂⟩
    | none =>
      rw [Dict.getD, hstamp, Option.getD_none] at hle
      obtain ⟨r₂, hr₂, hid₂, -⟩ := hgrown₂ p.agent r hr
      exact ⟨r₂, hr₂, hid₂, le_trans hle (hsound₂.nonneg _ _ hr₂)⟩
  · rename_i hunfit
    -- The table is rolled back, so what the cache now holds has to be there already.
    have hnew : NoneNew s := by
      rcases hcases with hres | hnone
      · exact absurd hres.1 hunfit
      · exact hnone.2
    refine ⟨hsound, ?_, hstored⟩
    intro a id hid
    rw [get?_selectIds] at hid
    split at hid
    · rename_i hmem
      obtain ⟨⟨hne, p, hp, rfl, hts⟩, hnone⟩ := mem_unknown.mp hmem
      obtain ⟨r, hr⟩ := Option.ne_none_iff_exists'.mp ((hnew p hp hne hts).resolve_left (not_not.mpr hnone))
      obtain ⟨r', hr', hid', -⟩ := hgrown₁ p.agent r hr
      rw [hr'] at hid
      exact ⟨r, hr, hid'.symm.trans (Option.some_inj.mp hid)⟩
    · exact hcached.kept s.pending a id hid

theorem flush_consistent {s : RequestLog} {fails : Bool} (h : Consistent s) (hsafe : FlushSafe s fails) :
    Consistent (flush s fails) := by
  unfold flush
  dsimp only
  split
  · rename_i hgo
    exact write_consistent h hsafe (by simpa using hgo.2)
  · exact ⟨h.sound, h.cached, h.stored⟩

/-! ## A pass -/

/-- No row that the pass leaves has an agent last seen before the oldest of these rows. -/
def PassSafe (s : RequestLog) (p : Pass) : Prop :=
  p.sweeps = true → ∀ first ∈ (remaining p s.requests).head?, ∀ row ∈ remaining p s.requests,
    ∀ r ∈ s.agents.get? row.request.agent, first.request.ts ≤ r.lastTs

theorem mem_of_mem_dropTenths {n : Nat} {rows : List Stored} {row : Stored} (h : row ∈ dropTenth^[n] rows) :
    row ∈ rows := by
  induction n generalizing rows with
  | zero => exact h
  | succ n ih => exact List.mem_of_mem_drop (ih h)

theorem mem_of_mem_remaining {p : Pass} {rows : List Stored} {row : Stored} (h : row ∈ remaining p rows) :
    row ∈ rows := by
  have hmem := mem_of_mem_dropTenths h
  split at hmem
  · exact (List.mem_filter.mp hmem).1
  · exact hmem

theorem sweep_get? {rows : List Stored} (h : (sweep rows agents).get? agent = some row) :
    agents.get? agent = some row := by
  unfold sweep at h
  split at h
  · rw [Dict.get?_filter, Option.filter_eq_some_iff] at h
    exact h.1
  · exact h

/-- An agent that is not older than the oldest row stays. -/
theorem get?_sweep {rows : List Stored} (h : agents.get? agent = some row)
    (hts : ∀ first ∈ rows.head?, first.request.ts ≤ row.lastTs) : (sweep rows agents).get? agent = some row := by
  unfold sweep
  split
  · rename_i first hfirst
    rw [Dict.get?_filter, Option.filter_eq_some_iff]
    exact ⟨h, by simpa using hts first hfirst⟩
  · exact h

theorem sweep_eq {rows : List Stored} (h : ¬ (sweep rows agents).entries.length < agents.entries.length) :
    sweep rows agents = agents := by
  unfold sweep at h ⊢
  split at h
  · rename_i first hfirst
    have hsub : (agents.entries.filter fun e => decide (first.request.ts ≤ e.2.lastTs)).Sublist agents.entries :=
      List.filter_sublist
    have heq := hsub.eq_of_length_le (not_lt.mp h)
    obtain ⟨entries, nodup⟩ := agents
    rw [Dict.filter, Dict.mk.injEq]
    exact heq
  · rfl

theorem maintain_consistent {s : RequestLog} {p : Pass} (h : Consistent s) (hsafe : PassSafe s p) :
    Consistent (maintain s p) := by
  obtain ⟨hsound, hcached, hstored⟩ := h
  have hrows (row : Stored) (hrow : row ∈ remaining p s.requests) : Referred s.agents row :=
    hstored row (mem_of_mem_remaining hrow)
  unfold maintain
  dsimp only
  cases hsweep : p.sweeps with
  | false =>
    simp only [Bool.false_eq_true, if_false, lt_irrefl]
    exact ⟨hsound, hcached, hrows⟩
  | true =>
    simp only [if_true]
    refine ⟨⟨?_, ?_⟩, ?_, ?_⟩
    · intro a b r r' hr hr'
      exact hsound.apart a b r r' (sweep_get? hr) (sweep_get? hr')
    · intro a r hr
      exact hsound.nonneg a r (sweep_get? hr)
    · dsimp only
      split
      · exact cached_empty
      · rename_i hnone
        rw [sweep_eq hnone]
        exact hcached
    · intro row hrow hne
      obtain ⟨r, hr, hid, hts⟩ := hrows row hrow hne
      exact ⟨r, get?_sweep hr (fun first hfirst => hsafe hsweep first hfirst row hrow r hr), hid, hts⟩

/-! ## Runs -/

/-- What a step needs, in the state it is taken in. -/
def Safe (s : RequestLog) : Op → Prop
  | .add _ _ _ => True
  | .flush fails => FlushSafe s fails
  | .maintain p => PassSafe s p

instance instDecidableSafe (s : RequestLog) (op : Op) : Decidable (Safe s op) :=
  match op with
  | .add _ _ _ => isTrue trivial
  | .flush fails => by
    unfold Safe FlushSafe StampRefused Resolvable Emptied NoneNew
    infer_instance
  | .maintain p => by
    unfold Safe PassSafe
    infer_instance

theorem step_consistent {s : RequestLog} {op : Op} (h : Consistent s) (hsafe : Safe s op) :
    Consistent (step s op) := by
  cases op with
  | add record ts now => exact ⟨h.sound, h.cached, h.stored⟩
  | flush fails => exact flush_consistent h hsafe
  | maintain p => exact maintain_consistent h hsafe

/-- In every run of safe steps every stored request refers to its own user agent, after each step. -/
theorem requests_keep_agents {s : RequestLog} {ops : List Op} (h : Consistent s)
    (hsafe : Machine.Along step Safe s ops) :
    OwnAgents s ∧ Machine.Along step (fun s op => OwnAgents (step s op)) s ops := by
  refine ⟨h.ownAgents, hsafe.imp_of_invariant h ?_ ?_⟩
  · intro s op hs hop
    exact step_consistent hs hop
  · intro s op hs hop
    exact (step_consistent hs hop).ownAgents

/-- A record of that time and user agent. -/
def plainRecord (ts : Int) (agent : String) : ParsedRequest where
  clientIp := "192.0.2.1"
  status := 200
  backend := "app/s1"
  ts := ts
  userAgent := agent

def emptyLog : RequestLog := ⟨[], Dict.empty, Dict.empty, [], false⟩

/-- A pass a while later, with nothing expired and nothing over the cap. -/
def quietPass : Pass := ⟨200, 3, true, 0, true, .between⟩

def inOrder : List Op :=
  [.add (plainRecord 50 "curl") none 60, .add (plainRecord 100 "wget") none 100, .flush false,
    .maintain quietPass]

theorem emptyLog_consistent : Consistent emptyLog where
  sound := ⟨fun a b r r' h => (by cases h), fun a r h => (by cases h)⟩
  cached := cached_empty
  stored := by simp [emptyLog]

theorem requests_keep_agents_inOrder :
    Machine.Along step Safe emptyLog inOrder ∧
      Machine.Along step (fun s op => OwnAgents (step s op)) emptyLog inOrder ∧
      (Machine.run step emptyLog inOrder).requests.length = 2 := by
  have hsafe : Machine.Along step Safe emptyLog inOrder := by decide +kernel
  exact ⟨hsafe, (requests_keep_agents emptyLog_consistent hsafe).2, by decide +kernel⟩

/-- The line stored second carries the earlier time: its agent is older than the oldest row. -/
theorem sweep_takes_agent_in_use :
    ¬ ∀ (s : RequestLog) (ops : List Op), Consistent s → OwnAgents (Machine.run step s ops) := by
  intro h
  have hown := h emptyLog [.add (plainRecord 100 "curl") none 100, .add (plainRecord 50 "wget") none 100,
    .flush false, .maintain quietPass] emptyLog_consistent
  revert hown
  unfold OwnAgents
  decide +kernel

end EasyHaProxy.Guardd.RequestAgents
