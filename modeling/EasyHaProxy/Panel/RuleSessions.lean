import EasyHaProxy.Lib.Machine
import EasyHaProxy.Panel.RuleEditor

/-! Rule editors and access-gate saves read the whole list from configd, and write a whole list back later.
Any number of them interleave; configd takes one request at a time. -/
namespace EasyHaProxy.Panel

/-! ## The rule of an access gate -/

def oneFactorRule (domain : Str) : Rule := { domain := .one domain, policy := oneFactor }

/-- The names of a rule as `_covered` reads them: a rule without a domain has the name `None`. -/
def coverNames : Names → List Str
  | .absent => ["None".toList]
  | .one name => [name]
  | .many names => names

def covered (rules : List Rule) (domain : Str) : Bool :=
  rules.any fun rule => (coverNames rule.domain).any fun name =>
    Text.lower (Text.strip name) = Text.lower domain

def missing (rules : List Rule) (domains : List Str) : List Str :=
  domains.filter fun domain => domain ≠ [] ∧ !covered rules domain

/-- The list `_ensure_access_gate_authelia_rule` saves; `none` when every domain has a rule. -/
def withGateRules (rules : List Rule) (domains : List Str) : Option (List Rule) :=
  if missing rules domains = [] then none
  else some (rules ++ (missing rules domains).map oneFactorRule)

/-! ## Interleavings -/

/-- What becomes of a `rules_set`: configd refuses it, takes it and says so, or takes it while its
answer is lost. -/
inductive Answer
  | refused
  | saved
  | unanswered
  deriving DecidableEq, Repr

/-- A list that configd took: what the session had loaded, what it sent, and whether it was told. -/
structure Saved where
  loaded : List Rule
  sent : List Rule
  reported : Bool
  deriving DecidableEq, Repr

structure RuleStore where
  stored : List Rule
  /-- The list each open form or gate save was loaded with. -/
  loaded : Nat → Option (List Rule)
  /-- What configd took, the latest first. -/
  log : List Saved

inductive Request
  /-- A page is opened, or a gate save reads the rules. -/
  | load (session : Nat)
  /-- An editor saves what its form holds. -/
  | save (session : Nat) (rules : List Rule) (answer : Answer)
  /-- A gate save adds what is missing for its domains. -/
  | gate (session : Nat) (domains : List Str) (answer : Answer)
  deriving Repr

/-- The list a request sends to configd, with the copy it was made from. -/
def Request.sends (s : RuleStore) : Request → Option Saved
  | .load _ => none
  | .save session rules answer =>
    match s.loaded session with
    | some loaded => if answer = .refused then none else some ⟨loaded, rules, answer = .saved⟩
    | none => none
  | .gate session domains answer =>
    match s.loaded session with
    | some loaded =>
      match withGateRules loaded domains with
      | some rules => if answer = .refused then none else some ⟨loaded, rules, answer = .saved⟩
      | none => none
    | none => none

def RuleStore.step (s : RuleStore) (request : Request) : RuleStore :=
  match request with
  | .load session => { s with loaded := Function.update s.loaded session (some s.stored) }
  | request =>
    match request.sends s with
    | some saved => { s with stored := saved.sent, log := saved :: s.log }
    | none => s

/-! ## Lost rules -/

/-- Every rule of an earlier save that no later session had loaded and left out is still stored. -/
def NothingLost (s : RuleStore) : Prop :=
  ∀ newer saved older, s.log = newer ++ saved :: older → saved.reported = true →
    ∀ rule ∈ saved.sent, (∀ later ∈ newer, rule ∈ later.loaded → rule ∈ later.sent) → rule ∈ s.stored

/-- When a list is sent, nothing was added to the stored one since its session loaded it. -/
def Current (s : RuleStore) (request : Request) : Prop :=
  ∀ saved, request.sends s = some saved → ∀ rule ∈ s.stored, rule ∈ saved.loaded

instance (s : RuleStore) (request : Request) : Decidable (Current s request) :=
  match h : request.sends s with
  | none => isTrue fun saved hs => by rw [h] at hs; cases hs
  | some saved => decidable_of_iff (∀ rule ∈ s.stored, rule ∈ saved.loaded)
    ⟨fun hall _ hs => Option.some.inj (h.symm.trans hs) ▸ hall, fun hall => hall saved h⟩

variable {s : RuleStore} {request : Request}

theorem step_cases (s : RuleStore) (request : Request) :
    ((s.step request).stored = s.stored ∧ (s.step request).log = s.log) ∨
      ∃ saved, request.sends s = some saved ∧ (s.step request).stored = saved.sent ∧
        (s.step request).log = saved :: s.log := by
  cases request with
  | load session => exact Or.inl ⟨rfl, rfl⟩
  | save session rules answer =>
    cases h : (Request.save session rules answer).sends s with
    | none => left; simp [RuleStore.step, h]
    | some saved => right; exact ⟨saved, rfl, by simp [RuleStore.step, h], by simp [RuleStore.step, h]⟩
  | gate session domains answer =>
    cases h : (Request.gate session domains answer).sends s with
    | none => left; simp [RuleStore.step, h]
    | some saved => right; exact ⟨saved, rfl, by simp [RuleStore.step, h], by simp [RuleStore.step, h]⟩

theorem nothingLost_step (h : NothingLost s) (hc : Current s request) : NothingLost (s.step request) := by
  rcases step_cases s request with ⟨hs, hl⟩ | ⟨sent, hsends, hs, hl⟩
  · intro newer saved older hlog hrep rule hr hkept
    rw [hs]
    exact h newer saved older (hl ▸ hlog) hrep rule hr hkept
  · intro newer saved older hlog hrep rule hr hkept
    rw [hl] at hlog
    rw [hs]
    cases newer with
    | nil =>
      obtain ⟨rfl, -⟩ := List.cons.inj hlog
      exact hr
    | cons last newer =>
      obtain ⟨rfl, htail⟩ := List.cons.inj hlog
      have hstored := h newer saved older htail hrep rule hr fun later hm =>
        hkept later (List.mem_cons_of_mem _ hm)
      exact hkept _ List.mem_cons_self (hc _ hsends rule hstored)

/-- While every list is sent before anything is added to the one it was made from, no rule is lost. -/
theorem nothingLost_of_current (rules : List Rule) (requests : List Request)
    (h : Machine.Along RuleStore.step Current ⟨rules, fun _ => none, []⟩ requests) :
    NothingLost (Machine.run RuleStore.step ⟨rules, fun _ => none, []⟩ requests) := by
  refine h.keeps ?_ fun s request hs hc => nothingLost_step hs hc
  intro newer saved older hlog
  simp at hlog

def gateDomain : Str := "gate.example.com".toList

def noRules : RuleStore := ⟨[], fun _ => none, []⟩

/-- One session after the other. -/
def inTurn : List Request :=
  [.load 1, .gate 1 [gateDomain] .saved, .load 0,
    .save 0 [oneFactorRule gateDomain, oneFactorRule "app.example.com".toList] .saved]

theorem nothingLost_of_current_inTurn : Machine.Along RuleStore.step Current noRules inTurn ∧
    oneFactorRule gateDomain ∈ (Machine.run RuleStore.step noRules inTurn).stored := by
  have hcurrent : Machine.Along RuleStore.step Current noRules inTurn := by decide +kernel
  refine ⟨hcurrent, ?_⟩
  have hlog : (Machine.run RuleStore.step noRules inTurn).log =
      [⟨[oneFactorRule gateDomain], [oneFactorRule gateDomain, oneFactorRule "app.example.com".toList], true⟩] ++
        ⟨[], [oneFactorRule gateDomain], true⟩ :: [] := by
    decide +kernel
  exact nothingLost_of_current [] inTurn hcurrent _ _ _ hlog rfl _ List.mem_cons_self (by decide +kernel)

/-- An editor that was opened before the gate was saved, and saved after it. -/
def overlapping : List Request :=
  [.load 0, .load 1, .gate 1 [gateDomain] .saved, .save 0 [oneFactorRule "app.example.com".toList] .saved]

/-- Both saves reported success, the editor never saw the gate's rule, and the rule is gone. -/
theorem gate_rule_lost : ¬ NothingLost (Machine.run RuleStore.step noRules overlapping) := by
  intro h
  have hlog : (Machine.run RuleStore.step noRules overlapping).log =
      [⟨[], [oneFactorRule "app.example.com".toList], true⟩] ++ ⟨[], [oneFactorRule gateDomain], true⟩ :: [] := by
    decide +kernel
  have hmem := h _ _ _ hlog rfl (oneFactorRule gateDomain) List.mem_cons_self (by simp)
  exact absurd hmem (by decide +kernel)

end EasyHaProxy.Panel
