import EasyHaProxy.Lib.Machine
import EasyHaProxy.Installer.AutoInstall

/-! The broker looks every minute whether the window is open and remembers the night of its attempt in
memory. A restart forgets it, and an installation can ask for one. -/
namespace EasyHaProxy.Installer

open Machine

/-! ## One attempt -/

structure StoredPlan where
  components : Components
  expired : Bool

/-- `auto_check_once`. -/
inductive CheckOutcome
  | busy
  | failed
  | done
  deriving DecidableEq

/-- `acquire_operation`: an update that is under way is waited for, the rest is refused. -/
inductive LockOutcome
  | free
  | busy
  | conflict
  deriving DecidableEq

/-- What `auto_install_once` finds. -/
structure Moment where
  /-- A shutdown, a reboot or another operation is under way. -/
  blocked : Bool := false
  stored : Option StoredPlan := none
  check : CheckOutcome := .done
  /-- The plan after the check. -/
  refreshed : Option StoredPlan := none
  permitted : Bool := true
  lock : LockOutcome := .free
  completed : Bool := true

inductive InstallOutcome
  | busy
  | checkFailed
  | nothing
  | refused
  | installed
  | failed
  deriving DecidableEq

def usable (plan : Option StoredPlan) : Option StoredPlan := plan.filter fun plan => !plan.expired

def Moment.install (m : Moment) (plan : StoredPlan) : InstallOutcome :=
  let components := autoInstallSelection plan.components
  if components = [] then .nothing
  else if validateSelection plan.components components m.permitted then
    match m.lock with
    | .busy => .busy
    | .conflict => .refused
    | .free => if m.completed then .installed else .failed
  else .refused

/-- `auto_install_once`. -/
def autoInstallOnce (m : Moment) : InstallOutcome :=
  if m.blocked then .busy
  else
    match usable m.stored with
    | some plan => m.install plan
    | none =>
      match m.check with
      | .busy => .busy
      | .failed => .checkFailed
      | .done =>
        match usable m.refreshed with
        | some plan => m.install plan
        | none => .checkFailed

/-! ## The window -/

/-! Local times are minutes from some midnight on. -/

def day (t : Int) : Int := t / 1440

def hour (t : Int) : Int := t % 1440 / 60

/-- The window as the settings keep it: two different hours of the day. -/
structure InstallWindow where
  start : Int
  stop : Int
  start_bounds : 0 ≤ start ∧ start ≤ 23
  stop_bounds : 0 ≤ stop ∧ stop ≤ 23
  ne : start ≠ stop

namespace InstallWindow

variable (w : InstallWindow)

/-- `in_install_window`. -/
def isOpen (t : Int) : Bool :=
  if w.start < w.stop then w.start ≤ hour t && hour t < w.stop else w.start ≤ hour t || hour t < w.stop

/-- `install_night`. -/
def night (t : Int) : Int := if w.stop < w.start ∧ hour t < w.stop then day t - 1 else day t

def opensAt (d : Int) : Int := 1440 * d + 60 * w.start

def closesAt (d : Int) : Int :=
  if w.start < w.stop then 1440 * d + 60 * w.stop else 1440 * (d + 1) + 60 * w.stop

end InstallWindow

/-! ## The broker -/

structure Attempt where
  time : Int
  outcome : InstallOutcome
  deriving DecidableEq

/-- `AUTO_INSTALL_STATE` with the time and all that was tried, the newest first. No step reads these
two. -/
structure Broker where
  night : Option Int
  clock : Int
  attempts : List Attempt

inductive BrokerOp
  /-- `auto_install_tick`, with what an attempt would find, or `none` where it would raise. -/
  | tick (time : Int) (enabled : Bool) (moment : Option Moment)
  | restart (time : Int)

def BrokerOp.time : BrokerOp → Int
  | tick time _ _ => time
  | restart time => time

namespace Broker

def start (clock : Int) : Broker := ⟨none, clock, []⟩

def tick (w : InstallWindow) (s : Broker) (t : Int) (enabled : Bool) (moment : Option Moment) : Broker :=
  if enabled && w.isOpen t && decide (s.night ≠ some (w.night t)) then
    match moment with
    | none => { s with clock := t }
    | some moment =>
      let outcome := autoInstallOnce moment
      { night := if outcome ≠ .busy then some (w.night t) else s.night
        clock := t
        attempts := ⟨t, outcome⟩ :: s.attempts }
  else { s with clock := t }

def step (w : InstallWindow) (s : Broker) : BrokerOp → Broker
  | .tick t enabled moment => s.tick w t enabled moment
  | .restart t => { s with night := none, clock := t }

/-- Local time does not go back. -/
def InOrder (s : Broker) (op : BrokerOp) : Prop := s.clock ≤ op.time

instance (s : Broker) (op : BrokerOp) : Decidable (InOrder s op) := inferInstanceAs (Decidable (_ ≤ _))

/-- No restart between an attempt and the end of its opening. -/
def Undisturbed (w : InstallWindow) (s : Broker) : BrokerOp → Prop
  | .restart t => ∀ a ∈ s.attempts, a.outcome ≠ .busy → w.closesAt (w.night a.time) ≤ t
  | .tick _ _ _ => True

instance (w : InstallWindow) (s : Broker) : (op : BrokerOp) → Decidable (Undisturbed w s op)
  | .restart _ => inferInstanceAs (Decidable (∀ _ ∈ _, _ → _))
  | .tick _ _ _ => .isTrue trivial

def Calm (w : InstallWindow) (s : Broker) (op : BrokerOp) : Prop := InOrder s op ∧ Undisturbed w s op

instance (w : InstallWindow) (s : Broker) (op : BrokerOp) : Decidable (Calm w s op) :=
  inferInstanceAs (Decidable (_ ∧ _))

end Broker

/-! ## Openings -/

section Opening

variable {w : InstallWindow} {t u d : Int}

theorem isOpen_iff : w.isOpen t = true ∧ w.night t = d ↔ w.opensAt d ≤ t ∧ t < w.closesAt d := by
  obtain ⟨hs, hs'⟩ := w.start_bounds
  obtain ⟨he, he'⟩ := w.stop_bounds
  have hne := w.ne
  have hsplit := Int.mul_ediv_add_emod t 1440
  have hlow := Int.emod_nonneg t (show (1440 : Int) ≠ 0 by decide)
  have hhigh := Int.emod_lt_of_pos t (show (0 : Int) < 1440 by decide)
  rw [InstallWindow.isOpen, InstallWindow.night, InstallWindow.opensAt, InstallWindow.closesAt]
  by_cases hlt : w.start < w.stop
  · rw [if_pos hlt, if_pos hlt, if_neg (fun h => absurd h.1 (by omega)), Bool.and_eq_true, decide_eq_true_iff,
      decide_eq_true_iff, day, hour]
    omega
  · rw [if_neg hlt, if_neg hlt, Bool.or_eq_true, decide_eq_true_iff, decide_eq_true_iff, day, hour]
    split <;> omega

theorem opening_of_isOpen (h : w.isOpen t = true) : w.opensAt (w.night t) ≤ t ∧ t < w.closesAt (w.night t) :=
  isOpen_iff.mp ⟨h, rfl⟩

/-- One opening is over before a later one begins. -/
theorem closesAt_le_opensAt {d d' : Int} (h : d < d') : w.closesAt d ≤ w.opensAt d' := by
  obtain ⟨hs, hs'⟩ := w.start_bounds
  obtain ⟨he, he'⟩ := w.stop_bounds
  have hne := w.ne
  unfold InstallWindow.closesAt InstallWindow.opensAt
  split <;> omega

/-- A later time of another night is after the earlier night's opening. -/
theorem closesAt_le_of_night_ne (hu : w.isOpen u = true) (ht : w.isOpen t = true) (hle : u ≤ t)
    (hne : w.night u ≠ w.night t) : w.closesAt (w.night u) ≤ t := by
  obtain ⟨hopen, hclose⟩ := opening_of_isOpen ht
  obtain ⟨hopen', -⟩ := opening_of_isOpen hu
  rcases lt_or_gt_of_ne hne with hlt | hgt
  · exact (closesAt_le_opensAt hlt).trans hopen
  · have := closesAt_le_opensAt (w := w) hgt
    omega

end Opening

/-! ## Runs -/

namespace Broker

variable {w : InstallWindow} {s : Broker} {op : BrokerOp} {a : Attempt}

/-- The attempts that were not put off. -/
def settled (s : Broker) : List Attempt := s.attempts.filter fun a => a.outcome ≠ .busy

/-- Those of the opening of a day. -/
def settledIn (w : InstallWindow) (s : Broker) (d : Int) : List Attempt :=
  s.settled.filter fun a => w.opensAt d ≤ a.time ∧ a.time < w.closesAt d

/-- What is tried is tried in the window, and what is not remembered of it is over. -/
structure Inv (w : InstallWindow) (s : Broker) : Prop where
  inside : ∀ a ∈ s.attempts, w.isOpen a.time = true ∧ a.time ≤ s.clock
  remembered : ∀ a ∈ s.settled, s.night = some (w.night a.time) ∨ w.closesAt (w.night a.time) ≤ s.clock
  once : (s.settled.map fun a => w.night a.time).Nodup

theorem inv_start (clock : Int) : Inv w (start clock) := by
  refine ⟨fun a ha => ?_, fun a ha => ?_, List.nodup_nil⟩
  · cases ha
  · cases ha

/-- Time passes and nothing is tried. -/
theorem Inv.pass (h : Inv w s) {t : Int} (ht : s.clock ≤ t) : Inv w { s with clock := t } := by
  refine ⟨fun a ha => ⟨(h.inside a ha).1, (h.inside a ha).2.trans ht⟩, fun a ha => ?_, h.once⟩
  exact (h.remembered a ha).imp_right fun hclosed => hclosed.trans ht

theorem Inv.attempt (h : Inv w s) {t : Int} (ht : s.clock ≤ t) (hopen : w.isOpen t = true)
    (hnight : s.night ≠ some (w.night t)) (outcome : InstallOutcome) :
    Inv w { night := if outcome ≠ .busy then some (w.night t) else s.night
            clock := t
            attempts := ⟨t, outcome⟩ :: s.attempts } := by
  -- all that was tried before is over, unless it was put off
  have hother : ∀ a ∈ s.settled, w.night a.time ≠ w.night t := by
    intro a ha hsame
    rcases h.remembered a ha with hnow | hover
    · exact hnight (hsame ▸ hnow)
    · have := (opening_of_isOpen hopen).2
      rw [← hsame] at this
      omega
  have hover : ∀ a ∈ s.settled, w.closesAt (w.night a.time) ≤ t := by
    intro a ha
    obtain ⟨hin, hle⟩ := h.inside a (List.mem_of_mem_filter ha)
    exact closesAt_le_of_night_ne hin hopen (hle.trans ht) (hother a ha)
  refine ⟨?_, ?_, ?_⟩
  · intro a ha
    rcases List.mem_cons.mp ha with rfl | ha
    · exact ⟨hopen, le_rfl⟩
    · exact ⟨(h.inside a ha).1, (h.inside a ha).2.trans ht⟩
  · intro a ha
    obtain ⟨hmem, hsettled⟩ := List.mem_filter.mp ha
    rcases List.mem_cons.mp hmem with rfl | hmem
    · exact Or.inl (if_pos (by simpa using hsettled))
    · exact Or.inr (hover a (List.mem_filter.mpr ⟨hmem, hsettled⟩))
  · unfold settled
    rw [List.filter_cons]
    split
    · refine List.nodup_cons.mpr ⟨fun hmem => ?_, h.once⟩
      obtain ⟨a, ha, hsame⟩ := List.mem_map.mp hmem
      exact hother a ha hsame
    · exact h.once

theorem Inv.step (h : Inv w s) (hop : Calm w s op) : Inv w (step w s op) := by
  obtain ⟨ht, hcalm⟩ := hop
  cases op with
  | tick t enabled moment =>
    change Inv w (s.tick w t enabled moment)
    unfold tick
    split
    · rename_i hdue
      simp only [Bool.and_eq_true, decide_eq_true_eq] at hdue
      cases moment with
      | none => exact h.pass ht
      | some moment => exact h.attempt ht hdue.1.2 hdue.2 _
    · exact h.pass ht
  | restart t =>
    have hpassed := h.pass (t := t) ht
    refine ⟨hpassed.inside, fun a ha => Or.inr ?_, hpassed.once⟩
    obtain ⟨hmem, hsettled⟩ := List.mem_filter.mp ha
    exact hcalm a hmem (by simpa using hsettled)

theorem length_le_one_of_same {α β : Type} {f : α → β} {l : List α} {b : β} (h : (l.map f).Nodup)
    (hb : ∀ a ∈ l, f a = b) : l.length ≤ 1 := by
  cases l with
  | nil => exact Nat.zero_le 1
  | cons a l =>
    cases l with
    | nil => exact le_rfl
    | cons a' l =>
      rw [List.map_cons, List.map_cons, hb a (by simp), hb a' (by simp)] at h
      simp at h

/-- Where the broker does not restart between an attempt and the end of its opening, each opening of the
window sees at most one attempt that is not put off, and nothing is tried outside the window. -/
theorem one_attempt_each_opening (w : InstallWindow) (clock : Int) (ops : List BrokerOp)
    (h : Along (step w) (Calm w) (start clock) ops) :
    (∀ a ∈ (run (step w) (start clock) ops).attempts, w.isOpen a.time = true) ∧
    ∀ d, ((run (step w) (start clock) ops).settledIn w d).length ≤ 1 := by
  have hinv : Inv w (run (step w) (start clock) ops) := h.keeps (inv_start clock) fun _ _ hs hop => hs.step hop
  refine ⟨fun a ha => (hinv.inside a ha).1, fun d => ?_⟩
  refine length_le_one_of_same (hinv.once.sublist (List.filter_sublist.map _)) (b := d) fun a ha => ?_
  exact (isOpen_iff.mpr (by simpa using (List.mem_filter.mp ha).2)).2

/-- Three in the morning to five. -/
def nightly : InstallWindow := ⟨3, 5, by decide, by decide, by decide⟩

/-- The changes with their image wait to be installed. -/
def waiting : Moment := { stored := some ⟨(webOnly .current).plan, false⟩ }

/-- Nothing is left to install. -/
def done : Moment := { stored := some ⟨fun _ => none, false⟩ }

/-- A night, its restart past five, and a night whose first attempt is put off and has a restart
before the second. -/
def twoNights : List BrokerOp :=
  [.tick 179 true (some waiting), .tick 180 true (some waiting), .tick 181 true (some done), .restart 302,
    .tick 1620 true (some { waiting with blocked := true }), .restart 1625, .tick 1630 true (some waiting),
    .tick 1640 true (some done)]

theorem one_attempt_each_opening_twoNights :
    (run (step nightly) (start 0) twoNights).attempts =
        [⟨1630, .installed⟩, ⟨1620, .busy⟩, ⟨180, .installed⟩] ∧
      ∀ d, ((run (step nightly) (start 0) twoNights).settledIn nightly d).length ≤ 1 := by
  have hcalm : Along (step nightly) (Calm nightly) (start 0) twoNights := by decide +kernel
  exact ⟨by decide +kernel, (one_attempt_each_opening nightly 0 twoNights hcalm).2⟩

/-- The installation asks for a restart, and the broker that comes back tries again. -/
theorem second_attempt_after_restart : ¬ ∀ (w : InstallWindow) (clock : Int) (ops : List BrokerOp),
    Along (step w) InOrder (start clock) ops → ∀ d, ((run (step w) (start clock) ops).settledIn w d).length ≤ 1 := by
  intro h
  have htwo := h nightly 0 [.tick 180 true (some waiting), .restart 190, .tick 200 true (some done)]
    (by refine ⟨?_, ?_, ?_, trivial⟩ <;> decide +kernel) 0
  exact absurd htwo (by decide +kernel)

end Broker

end EasyHaProxy.Installer
