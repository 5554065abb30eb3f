import EasyHaProxy.Guardd.TrustedRates

/-! An episode is opened once and moved once, from its counter to those waiting to be written, or to the
count of those that found no room there. -/
namespace EasyHaProxy.Guardd

def TrustedCounter.opens (c : TrustedCounter) : Nat := if c.episode.isSome then 1 else 0

namespace TrustedRates

open Python

variable {Net : Type} {s : TrustedRates Net} {counters : Dict RateKey TrustedCounter} {counter c : TrustedCounter}
  {key : RateKey} {taken : Nat}

def openIn (counters : Dict RateKey TrustedCounter) : List Episode := counters.entries.filterMap (·.2.episode)

theorem length_openIn {others : List (RateKey × TrustedCounter)} (h : counters.entries.Perm ((key, c) :: others)) :
    (openIn counters).length = c.opens + (others.filterMap (·.2.episode)).length := by
  rw [openIn, (h.filterMap _).length_eq, TrustedCounter.opens]
  cases hc : c.episode with
  | none => simp [hc]
  | some e => simp [hc, add_comm]

theorem length_openIn_of_get? (h : counters.get? key = some c) :
    (openIn counters).length = c.opens + (openIn (counters.erase key)).length :=
  length_openIn (Dict.perm_of_get? h)

/-- The account of the episodes: each that was opened is open, waiting, taken or dropped; it is of its
counter's address and site; and there are no more counters than there may be. -/
structure Balanced (taken : Nat) (s : TrustedRates Net) : Prop where
  account : s.opened = (openIn s.counters).length + s.finished.length + taken + s.dropped
  keyed : ∀ key c e, s.counters.get? key = some c → c.episode = some e → e.key = key
  bounded : s.counters.entries.length ≤ s.maxKeys

/-! ## Episodes that end -/

theorem finish_moves (s : TrustedRates Net) (e : Episode) :
    (s.finish e).finished.length + (s.finish e).dropped = s.finished.length + s.dropped + 1 := by
  unfold finish
  split
  · rfl
  · simp only [List.length_append, List.length_singleton]
    omega

theorem finishOf_moves (s : TrustedRates Net) (c : TrustedCounter) :
    (s.finishOf c).finished.length + (s.finishOf c).dropped = s.finished.length + s.dropped + c.opens := by
  unfold finishOf TrustedCounter.opens
  cases c.episode with
  | none => rfl
  | some e => exact finish_moves s e

theorem finishOf_frame (s : TrustedRates Net) (c : TrustedCounter) :
    (s.finishOf c).counters = s.counters ∧ (s.finishOf c).opened = s.opened ∧
      (s.finishOf c).maxKeys = s.maxKeys := by
  unfold finishOf finish
  cases c.episode with
  | none => exact ⟨rfl, rfl, rfl⟩
  | some e =>
    dsimp only
    split <;> exact ⟨rfl, rfl, rfl⟩

theorem Balanced.finishOf (hopened : s.opened = (openIn s.counters).length + c.opens + s.finished.length + taken + s.dropped)
    (hkeyed : ∀ key c e, s.counters.get? key = some c → c.episode = some e → e.key = key)
    (hbounded : s.counters.entries.length ≤ s.maxKeys) : Balanced taken (s.finishOf c) := by
  obtain ⟨hcounters, hsame, hmax⟩ := finishOf_frame s c
  have hmoves := finishOf_moves s c
  refine ⟨?_, ?_, ?_⟩
  · rw [hcounters, hsame]
    omega
  · rwa [hcounters]
  · rwa [hcounters, hmax]

theorem keyed_erase (h : ∀ key c e, counters.get? key = some c → c.episode = some e → e.key = key) (gone : RateKey) :
    ∀ key c e, (counters.erase gone).get? key = some c → c.episode = some e → e.key = key := by
  intro key c e hget he
  rw [Dict.get?_erase] at hget
  split at hget
  · cases hget
  · exact h key c e hget he

theorem balanced_giveUp (h : Balanced taken s) (key : RateKey) : Balanced taken (s.giveUp key) := by
  unfold giveUp
  split
  · exact h
  next counter hget =>
    have haccount := h.account
    rw [length_openIn_of_get? hget] at haccount
    refine Balanced.finishOf ?_ (keyed_erase h.keyed key) ?_
    · change s.opened = (openIn (s.counters.erase key)).length + counter.opens + s.finished.length + taken + s.dropped
      omega
    · exact le_trans (Dict.length_erase_le _ _) h.bounded

theorem balanced_close (h : Balanced taken s) (key : RateKey) : Balanced taken (s.close key) := by
  unfold close
  split
  · exact h
  next counter hget =>
    have haccount := h.account
    rw [length_openIn_of_get? hget] at haccount
    have hset := Dict.perm_set s.counters key { counter with episode := none }
    refine Balanced.finishOf ?_ ?_ ?_
    · change s.opened = (openIn (s.counters.set key { counter with episode := none })).length + counter.opens +
        s.finished.length + taken + s.dropped
      have hclosed : (openIn (s.counters.set key { counter with episode := none })).length =
          (openIn (s.counters.erase key)).length := (length_openIn hset).trans (Nat.zero_add _)
      omega
    · intro k c e hk he
      rw [Dict.get?_set] at hk
      split at hk
      · obtain rfl := Option.some.inj hk
        cases he
      · exact h.keyed k c e hk he
    · refine le_trans (le_of_eq ?_) h.bounded
      exact hset.length_eq.trans (Dict.perm_of_get? hget).length_eq.symm

theorem balanced_foldl {f : TrustedRates Net → RateKey → TrustedRates Net}
    (hf : ∀ s key, Balanced taken s → Balanced taken (f s key)) (h : Balanced taken s) (keys : List RateKey) :
    Balanced taken (keys.foldl f s) := by
  induction keys generalizing s with
  | nil => exact h
  | cons key keys ih => exact ih (hf s key h)

/-! ## Each operation -/

/-- A new counter finds a place: where there are too many, the oldest of the others goes. -/
theorem balanced_makeRoom (h : Balanced taken s) (hget : s.counters.get? key = none) (ts : Int) :
    Balanced taken { s with counters := s.counters.set key { start := ts } }.makeRoom ∧
      { s with counters := s.counters.set key { start := ts } }.makeRoom.counters.get? key =
        some { start := ts } := by
  obtain ⟨counters, hcounters⟩ : ∃ d, d = s.counters.set key { start := ts } := ⟨_, rfl⟩
  have hperm : counters.entries.Perm ((key, { start := ts }) :: s.counters.entries) := by
    rw [hcounters, ← Dict.entries_erase_of_get?_none hget]
    exact Dict.perm_set _ _ _
  have hopen : (openIn counters).length = (openIn s.counters).length := by
    rw [length_openIn hperm]
    exact Nat.zero_add _
  have hlen : counters.entries.length = s.counters.entries.length + 1 := hperm.length_eq
  have hkeyed : ∀ k c e, counters.get? k = some c → c.episode = some e → e.key = k := by
    intro k c e hk he
    rw [hcounters, Dict.get?_set] at hk
    split at hk
    · obtain rfl := Option.some.inj hk
      cases he
    · exact h.keyed k c e hk he
  have haccount := h.account
  rw [← hopen] at haccount
  rw [← hcounters]
  unfold makeRoom
  dsimp only
  split
  next hmany =>
    have hmore : s.counters.entries ≠ [] := by
      intro hnil
      rw [hlen, hnil] at hmany
      have := s.maxKeys_pos
      simp only [List.length_nil] at hmany
      omega
    split
    next hnone =>
      rw [Dict.popOldest, Option.map_eq_none_iff, List.head?_eq_none_iff] at hnone
      rw [hnone] at hlen
      cases hlen
    next k oldest rest hpop =>
      obtain ⟨hold, hrest⟩ := Dict.popOldest_eq_some hpop
      obtain ⟨hkept, -⟩ := Dict.get?_popOldest_set hget hmore (hcounters ▸ hpop)
      have hcount := length_openIn_of_get? hold
      have hless : counters.entries.length = rest.entries.length + 1 := by
        rw [hrest]
        exact (Dict.perm_of_get? hold).length_eq
      refine ⟨Balanced.finishOf ?_ ?_ ?_, ?_⟩
      · change s.opened = (openIn rest).length + oldest.opens + s.finished.length + taken + s.dropped
        rw [hrest]
        dsimp only at hcount ⊢
        omega
      · change ∀ key c e, rest.get? key = some c → c.episode = some e → e.key = key
        rw [hrest]
        exact keyed_erase hkeyed k
      · change rest.entries.length ≤ s.maxKeys
        have := h.bounded
        omega
      · rw [(finishOf_frame _ _).1]
        exact hkept
  next hroom =>
    refine ⟨⟨haccount, hkeyed, not_lt.mp hroom⟩, ?_⟩
    rw [hcounters, Dict.get?_set, if_pos rfl]

/-- A touched counter is held, and a place was made for it. -/
theorem balanced_touch (h : Balanced taken s) (key : RateKey) (ts : Int) :
    Balanced taken (s.touch key ts).1 ∧ (s.touch key ts).1.counters.get? key = some (s.touch key ts).2 := by
  unfold touch
  split
  next counter hget =>
    have hperm := Dict.perm_moveToEnd s.counters key
    refine ⟨⟨?_, ?_, ?_⟩, ?_⟩
    · have haccount := h.account
      rwa [openIn, ← (hperm.filterMap _).length_eq] at haccount
    · intro k c e hk
      rw [Dict.get?_moveToEnd] at hk
      exact h.keyed k c e hk
    · exact (le_of_eq hperm.length_eq).trans h.bounded
    · exact Dict.get?_moveToEnd.trans hget
  next hget => exact balanced_makeRoom h hget ts

theorem episodeAfter_isSome {site : SiteCeiling Net} {request : ParsedRequest} {trust : String} {ts rate : Int}
    {episode : Option Episode} (h : episode.isSome) : (episodeAfter site request trust ts rate episode).isSome := by
  unfold episodeAfter
  split <;> simp [h]

theorem note_key (e : Episode) (request : ParsedRequest) (ts : Int) : (e.note request ts).key = e.key := by
  unfold Episode.note
  split <;> split <;> rfl

theorem episodeAfter_key {site : SiteCeiling Net} {request : ParsedRequest} {trust : String} {ts rate : Int}
    {episode : Option Episode} {e : Episode} (h : ∀ e, episode = some e → e.key = (request.clientIp, site.id))
    (he : episodeAfter site request trust ts rate episode = some e) : e.key = (request.clientIp, site.id) := by
  obtain ⟨before, hbefore, rfl⟩ := Option.map_eq_some_iff.mp he
  rw [note_key]
  split at hbefore
  · obtain rfl := Option.some.inj hbefore
    cases hepisode : episode with
    | none => rfl
    | some old => exact h old hepisode
  · exact h before hbefore

/-- A request opens an episode just where its counter had none and has one after it. -/
theorem balanced_record {site : SiteCeiling Net} {request : ParsedRequest} (h : Balanced taken s)
    (hget : s.counters.get? (request.clientIp, site.id) = some counter) (trust : String) (ts : Int) :
    Balanced taken (s.record counter site request trust ts) := by
  obtain ⟨after, rate, hadd⟩ : ∃ after rate, counter.add ts site.window = (after, rate) := ⟨_, _, rfl⟩
  have hperm := Dict.perm_modify hget fun _ =>
    { after with episode := episodeAfter site request trust ts rate counter.episode }
  have haccount := h.account
  rw [length_openIn_of_get? hget] at haccount
  unfold record
  rw [hadd]
  refine ⟨?_, ?_, ?_⟩
  · have hopens : ({ after with episode := episodeAfter site request trust ts rate counter.episode } :
        TrustedCounter).opens = counter.opens +
          if counter.episode.isNone ∧ (episodeAfter site request trust ts rate counter.episode).isSome then 1 else 0 := by
      unfold TrustedCounter.opens
      cases hbefore : counter.episode with
      | none => simp
      | some e => simp [episodeAfter_isSome]
    dsimp only
    rw [length_openIn hperm, hopens]
    unfold openIn at haccount
    omega
  · intro k c e hk he
    dsimp only at hk
    rw [Dict.get?_modify] at hk
    split at hk
    next heq =>
      subst heq
      rw [hget] at hk
      obtain rfl := Option.some.inj hk
      exact episodeAfter_key (fun old hold => h.keyed _ _ _ hget hold) he
    next => exact h.keyed k c e hk he
  · refine le_trans (le_of_eq ?_) h.bounded
    exact hperm.length_eq.trans (Dict.perm_of_get? hget).length_eq.symm

theorem balanced_count (h : Balanced taken s) (site : SiteCeiling Net) (request : ParsedRequest) (trust : String)
    (ts : Int) : Balanced taken (s.count site request trust ts) := by
  have hclock : Balanced taken { s with clock := max s.clock ts } := ⟨h.account, h.keyed, h.bounded⟩
  obtain ⟨htouch, hget⟩ := balanced_touch hclock (request.clientIp, site.id) ts
  exact balanced_record htouch hget trust ts

theorem balanced_consider {py : Interpreter} {inNetwork : Ip → Net → Bool} (h : Balanced taken s) (request : ParsedRequest) (trust : String) (now : Int)
    (stamp : Option ℚ) : Balanced taken (s.consider py inNetwork request trust now stamp) := by
  unfold consider
  dsimp only
  split
  · exact h
  · split
    · exact h
    · split
      · exact h
      · split
        · exact h
        · exact balanced_count h _ _ _ _

theorem balanced_erase (h : Balanced taken s) {key : RateKey}
    (hnone : ∀ c, s.counters.get? key = some c → c.episode = none) :
    Balanced taken { s with counters := s.counters.erase key } := by
  refine ⟨?_, keyed_erase h.keyed key, le_trans (Dict.length_erase_le _ _) h.bounded⟩
  have haccount := h.account
  cases hget : s.counters.get? key with
  | none =>
    rw [openIn, ← Dict.entries_erase_of_get?_none hget] at haccount
    exact haccount
  | some c =>
    have hopens : c.opens = 0 := by simp [TrustedCounter.opens, hnone c hget]
    rw [length_openIn_of_get? hget, hopens, Nat.zero_add] at haccount
    exact haccount

theorem get?_close (hget : s.counters.get? key = some counter) :
    (s.close key).counters.get? key = some { counter with episode := none } := by
  unfold close
  rw [hget]
  dsimp only
  rw [(finishOf_frame _ _).1]
  simp

theorem balanced_tickKey (h : Balanced taken s) (reference : Int) (key : RateKey) :
    Balanced taken (tickKey reference s key) := by
  unfold tickKey
  split
  · exact h
  next counter hget =>
    dsimp only
    cases (counter.episode.any fun e =>
      decide (((s.sites.get? key.2).map (·.window)).getD 0 < reference - e.lastOver)) with
    | true =>
      rw [if_pos (rfl : true = true)]
      split
      · refine balanced_erase (balanced_close h key) fun c hc => ?_
        rw [get?_close hget] at hc
        obtain rfl := Option.some.inj hc
        rfl
      · exact balanced_close h key
    | false =>
      rw [if_neg (show ¬ (false = true) by decide)]
      split
      next hidle =>
        refine balanced_erase h fun c hc => ?_
        obtain rfl := Option.some.inj (hget.symm.trans hc)
        exact Option.isNone_iff_eq_none.mp (hidle.1.resolve_left (by decide))
      · exact h

theorem balanced_finishAll (h : Balanced taken s) : Balanced taken s.finishAll :=
  balanced_foldl (fun _ key h => balanced_close h key) h _

section Ops

variable [DecidableEq Net] {py : Interpreter} {inNetwork : Ip → Net → Bool}

theorem balanced_reload (h : Balanced taken s) (force : Bool) (file : CeilingFile Net) :
    Balanced taken (s.reload force file) := by
  unfold reload
  split
  · exact h
  · have hgone := balanced_foldl (fun _ key h => balanced_giveUp h key) h (s.counters.keys.filter fun key =>
      s.sites.get? key.2 ≠ (if file.signature.isSome then file.sites else Dict.empty).get? key.2)
    exact ⟨hgone.account, hgone.keyed, hgone.bounded⟩

theorem balanced_maybeReload (h : Balanced taken s) (moment : ℚ) (file : CeilingFile Net) :
    Balanced taken (s.maybeReload moment file) := by
  unfold maybeReload
  split
  · exact balanced_reload (s := { s with checked := moment }) ⟨h.account, h.keyed, h.bounded⟩ _ _
  · exact h

theorem balanced_observe (h : Balanced taken s) (request : ParsedRequest) (trust : String) (now : Int)
    (stamp : Option ℚ) (moment : ℚ) (file : CeilingFile Net) :
    Balanced taken (s.observe py inNetwork request trust now stamp moment file) := by
  have hload : Balanced taken (if s.checked = 0 then maybeReload moment file s else s) := by
    split
    · exact balanced_maybeReload h moment file
    · exact h
  exact balanced_consider hload request trust now stamp

theorem balanced_tick (h : Balanced taken s) (now : Int) (idle : Bool) (moment : ℚ) (file : CeilingFile Net) :
    Balanced taken (s.tick now idle moment file) :=
  balanced_foldl (fun _ key h => balanced_tickKey h _ key) (balanced_maybeReload h moment file) _

end Ops

/-! ## The limit -/

theorem maxKeys_giveUp (s : TrustedRates Net) (key : RateKey) : (s.giveUp key).maxKeys = s.maxKeys := by
  unfold giveUp
  split
  · rfl
  · exact (finishOf_frame _ _).2.2

theorem maxKeys_close (s : TrustedRates Net) (key : RateKey) : (s.close key).maxKeys = s.maxKeys := by
  unfold close
  split
  · rfl
  · exact (finishOf_frame _ _).2.2

theorem maxKeys_foldl {f : TrustedRates Net → RateKey → TrustedRates Net}
    (hf : ∀ s key, (f s key).maxKeys = s.maxKeys) (s : TrustedRates Net) (keys : List RateKey) :
    (keys.foldl f s).maxKeys = s.maxKeys := by
  induction keys generalizing s with
  | nil => rfl
  | cons key keys ih => exact (ih (f s key)).trans (hf s key)

theorem maxKeys_touch (s : TrustedRates Net) (key : RateKey) (ts : Int) :
    (s.touch key ts).1.maxKeys = s.maxKeys := by
  unfold touch makeRoom
  split
  · rfl
  · dsimp only
    split
    · split
      · rfl
      · exact (finishOf_frame _ _).2.2
    · rfl

theorem maxKeys_tickKey (reference : Int) (s : TrustedRates Net) (key : RateKey) :
    (tickKey reference s key).maxKeys = s.maxKeys := by
  unfold tickKey
  split
  · rfl
  next counter _ =>
    have hclosed (ended : Bool) : (if ended then s.close key else s).maxKeys = s.maxKeys := by
      cases ended with
      | true => exact maxKeys_close s key
      | false => rfl
    dsimp only
    split <;> exact hclosed _

theorem maxKeys_consider {py : Interpreter} {inNetwork : Ip → Net → Bool} (request : ParsedRequest) (trust : String) (now : Int) (stamp : Option ℚ)
    (s : TrustedRates Net) : (consider py inNetwork request trust now stamp s).maxKeys = s.maxKeys := by
  unfold consider
  split
  · rfl
  · dsimp only
    split
    · rfl
    · split
      · rfl
      next site _ =>
        split
        · rfl
        · exact maxKeys_touch _ _ _

section Ops

variable [DecidableEq Net]

theorem maxKeys_reload (force : Bool) (file : CeilingFile Net) (s : TrustedRates Net) :
    (s.reload force file).maxKeys = s.maxKeys := by
  unfold reload
  split
  · rfl
  · exact maxKeys_foldl maxKeys_giveUp s _

theorem maxKeys_maybeReload (moment : ℚ) (file : CeilingFile Net) (s : TrustedRates Net) :
    (s.maybeReload moment file).maxKeys = s.maxKeys := by
  unfold maybeReload
  split
  · exact maxKeys_reload _ _ _
  · rfl

end Ops

/-! ## Runs -/

theorem sublist_keys {entries : List (RateKey × TrustedCounter)}
    (h : ∀ entry ∈ entries, ∀ e, entry.2.episode = some e → e.key = entry.1) :
    ((entries.filterMap (·.2.episode)).map Episode.key).Sublist (entries.map Prod.fst) := by
  induction entries with
  | nil => exact List.Sublist.refl _
  | cons entry entries ih =>
    have hrest := ih fun other hother => h other (List.mem_cons_of_mem entry hother)
    rw [List.filterMap_cons]
    cases hentry : entry.2.episode with
    | none => exact hrest.cons _
    | some e =>
      rw [List.map_cons, List.map_cons, h entry List.mem_cons_self e hentry]
      exact hrest.cons_cons _

/-- No two open episodes are of one address on one site. -/
theorem Balanced.nodup (h : Balanced taken s) : (s.openEpisodes.map Episode.key).Nodup := by
  refine (sublist_keys ?_).nodup s.counters.nodup
  intro entry hentry e he
  exact h.keyed _ _ _ (Dict.mem_entries.mp hentry) he

theorem balanced_create (maxKeys : Int) : Balanced 0 (create maxKeys : TrustedRates Net) where
  account := rfl
  keyed := by
    intro key c e hget
    cases hget
  bounded := Nat.zero_le _

/-- The call of an operation. -/
inductive RateOp (Net : Type)
  | observe (request : ParsedRequest) (trust : String) (now : Int) (stamp : Option ℚ) (moment : ℚ)
    (file : CeilingFile Net)
  | tick (now : Int) (idle : Bool) (moment : ℚ) (file : CeilingFile Net)
  | reload (force : Bool) (file : CeilingFile Net)
  | finishAll
  | takeFinished

structure RateWorld (Net : Type) where
  rates : TrustedRates Net
  taken : List Episode := []

section Runs

variable [DecidableEq Net] (py : Interpreter) (inNetwork : Ip → Net → Bool)

def step (w : RateWorld Net) : RateOp Net → RateWorld Net
  | .observe request trust now stamp moment file =>
    { w with rates := w.rates.observe py inNetwork request trust now stamp moment file }
  | .tick now idle moment file => { w with rates := w.rates.tick now idle moment file }
  | .reload force file => { w with rates := w.rates.reload force file }
  | .finishAll => { w with rates := w.rates.finishAll }
  | .takeFinished => ⟨w.rates.takeFinished.1, w.taken ++ w.rates.takeFinished.2⟩

variable {py inNetwork} {w : RateWorld Net}

theorem balanced_step (h : Balanced w.taken.length w.rates) (op : RateOp Net) :
    Balanced (step py inNetwork w op).taken.length (step py inNetwork w op).rates := by
  cases op with
  | observe request trust now stamp moment file => exact balanced_observe h request trust now stamp moment file
  | tick now idle moment file => exact balanced_tick h now idle moment file
  | reload force file => exact balanced_reload h force file
  | finishAll => exact balanced_finishAll h
  | takeFinished =>
    refine ⟨?_, h.keyed, h.bounded⟩
    have haccount := h.account
    simp only [step, takeFinished, List.length_append, List.length_nil]
    omega

theorem maxKeys_step (w : RateWorld Net) (op : RateOp Net) :
    (step py inNetwork w op).rates.maxKeys = w.rates.maxKeys := by
  cases op with
  | observe request trust now stamp moment file =>
    refine (maxKeys_consider request trust now stamp _).trans ?_
    split
    · exact maxKeys_maybeReload moment file _
    · rfl
  | tick now idle moment file => exact (maxKeys_foldl (maxKeys_tickKey _) _ _).trans (maxKeys_maybeReload moment file _)
  | reload force file => exact maxKeys_reload force file _
  | finishAll => exact maxKeys_foldl maxKeys_close _ _
  | takeFinished => rfl

theorem maxKeys_run (w : RateWorld Net) (ops : List (RateOp Net)) :
    (Machine.run (step py inNetwork) w ops).rates.maxKeys = w.rates.maxKeys := by
  induction ops generalizing w with
  | nil => rfl
  | cons op ops ih => exact (ih _).trans (maxKeys_step w op)

theorem balanced_run (h : Balanced w.taken.length w.rates) (ops : List (RateOp Net)) :
    Balanced (Machine.run (step py inNetwork) w ops).taken.length (Machine.run (step py inNetwork) w ops).rates := by
  induction ops generalizing w with
  | nil => exact h
  | cons op ops ih => exact ih (balanced_step h op)

variable (py inNetwork) in
/-- Whatever is observed and whenever, each episode that was opened is open, waits, was taken or is counted
as dropped; no address has two open on one site; and no more counters are held than the limit, which is at
least one. -/
theorem episodes_accounted (maxKeys : Int) (ops : List (RateOp Net)) :
    let w := Machine.run (step py inNetwork) ⟨create maxKeys, []⟩ ops
    w.rates.opened =
        w.rates.openEpisodes.length + w.rates.finished.length + w.taken.length + w.rates.dropped ∧
      (w.rates.openEpisodes.map Episode.key).Nodup ∧ w.rates.counters.entries.length ≤ (max 1 maxKeys).toNat := by
  have h : Balanced 0 (create maxKeys : TrustedRates Net) := balanced_create maxKeys
  have hrun := @balanced_run _ _ py inNetwork ⟨create maxKeys, []⟩ h ops
  exact ⟨hrun.account, hrun.nodup, hrun.bounded.trans_eq (maxKeys_run _ ops)⟩

end Runs

end TrustedRates

end EasyHaProxy.Guardd
