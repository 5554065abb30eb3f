import Mathlib.Data.List.Infix
import EasyHaProxy.Lib.Dict
import EasyHaProxy.Lib.Json
import EasyHaProxy.Lib.Machine

/-! A producer reports through `AlertClient.observe`. What it last posted under a key is remembered before
the post, and an observation that has not changed is answered from there. -/
namespace EasyHaProxy.AlertClient

open Machine

def maxKeys : Nat := 2000

/-- `RESEND_UNCHANGED_SECONDS`, in nanoseconds of the monotonic clock. -/
def resendUnchanged : Nat := 120 * 1000000000

/-! ## The client -/

structure Signature where
  active : Option Bool := none
  severity : String := ""
  summary : String := ""
  detail : String := ""
  triggerDelay : Option Int := none
  recipient : String := ""
  retired : Bool := false
  deriving DecidableEq

/-- How a post ends: by an exception nobody catches, without an answer, by another error, or with the
first line of an answer. -/
inductive Post
  | raised
  | unreachable
  | failed
  | answered (head : List Char)
  deriving DecidableEq

/-- What `_post` returns; nothing when it raises. -/
def Post.result : Post → Option Bool
  | raised => none
  | unreachable => some false
  | failed => some false
  | answered head => some ([' ', '2', '0', '0', ' '] <:+: head)

/-- A call of `observe`, with how its post ends if it comes to one. -/
structure Call where
  rule : String
  subject : String
  signature : Signature
  post : Post
  deriving DecidableEq

def Call.key (call : Call) : String := call.rule ++ "\x00" ++ call.subject

/-- What is posted: a field that is empty is left out. -/
def Call.payload (call : Call) : List (String × Json) :=
  let s := call.signature
  ([("rule", .str call.rule), ("subject", .str call.subject)] : List (String × Json)) ++
    (s.active.map (fun b => ("active", Json.bool b))).toList ++
    (if s.severity = "" then [] else [("severity", .str s.severity)] : List (String × Json)) ++
    (if s.summary = "" then [] else [("summary", .str s.summary)] : List (String × Json)) ++
    (if s.retired then [("retired", .bool true)] else [] : List (String × Json)) ++
    (if s.detail = "" then [] else [("detail", .str s.detail)] : List (String × Json)) ++
    (s.triggerDelay.map (fun n => ("trigger_delay", Json.int n))).toList ++
    (if s.recipient = "" then [] else [("recipient", .str s.recipient)] : List (String × Json))

/-- A post that was made, and when. -/
structure Posted where
  call : Call
  sentAt : Nat
  deriving DecidableEq

/-- The engine answered 200. -/
def Posted.accepted (p : Posted) : Prop := p.call.post.result = some true

instance (p : Posted) : Decidable p.accepted := inferInstanceAs (Decidable (_ = _))

structure Client where
  configured : Bool
  clock : Nat := 0
  last : Dict String (Signature × Nat) := Dict.empty
  warned : Bool := false
  posts : List Posted := []

namespace Client

/-- The observation was posted as it is less than two minutes ago. -/
def cached (c : Client) (call : Call) : Bool :=
  match c.last.get? call.key with
  | none => false
  | some (signature, ts) => signature = call.signature && c.clock - ts < resendUnchanged

/-- The map with the call in it; a map that grew too large is emptied. -/
def remember (c : Client) (call : Call) : Dict String (Signature × Nat) :=
  let last := c.last.set call.key (call.signature, c.clock)
  if maxKeys < last.entries.length then Dict.empty else last

def warnedAfter (c : Client) : Post → Bool
  | .unreachable => true
  | .answered _ => false
  | _ => c.warned

/-- The client afterwards and what `observe` returns; nothing when it raises. -/
def observe (c : Client) (call : Call) : Client × Option Bool :=
  if !c.configured then (c, some false)
  else if c.cached call then (c, some true)
  else
    ({ c with
      last := c.remember call
      warned := c.warnedAfter call.post
      posts := ⟨call, c.clock⟩ :: c.posts }, call.post.result)

end Client

inductive Op
  | wait (nanoseconds : Nat)
  | observe (call : Call)

def Client.step (c : Client) : Op → Client
  | .wait nanoseconds => { c with clock := c.clock + nanoseconds }
  | .observe call => (c.observe call).1

namespace Client

variable {c : Client} {call call' : Call} {op : Op} {ops : List Op} {p : Posted} {ns : Nat}

/-! ## The map and the posts -/

def lastPost (c : Client) (call : Call) : Option Posted := c.posts.find? (fun p => p.call.key = call.key)

/-- Every entry of the map is the last post under its key. -/
structure Inv (c : Client) : Prop where
  last : ∀ key signature ts, c.last.get? key = some (signature, ts) →
    ∃ p, c.posts.find? (fun p => p.call.key = key) = some p ∧ p.call.signature = signature ∧ p.sentAt = ts
  past : ∀ p ∈ c.posts, p.sentAt ≤ c.clock

theorem inv_new (configured : Bool) : Inv { configured := configured } :=
  ⟨fun _ _ _ h => (by cases h), fun _ h => absurd h List.not_mem_nil⟩

theorem remember_get? {key : String} {e : Signature × Nat} (h : (c.remember call).get? key = some e) :
    (if key = call.key then some (call.signature, c.clock) else c.last.get? key) = some e := by
  simp only [remember] at h
  split at h
  · cases h
  · rwa [Dict.get?_set] at h

theorem Inv.observe (h : Inv c) (call : Call) : Inv (c.observe call).1 := by
  simp only [Client.observe]
  split
  · exact h
  · split
    · exact h
    · refine ⟨fun key signature ts hget => ?_, fun p hp => ?_⟩
      · have hentry := remember_get? hget
        by_cases hk : key = call.key
        · rw [if_pos hk] at hentry
          obtain ⟨rfl, rfl⟩ := Prod.mk.inj (Option.some.inj hentry)
          exact ⟨⟨call, c.clock⟩, by simp [hk], rfl, rfl⟩
        · rw [if_neg hk] at hentry
          obtain ⟨p, hp, hsignature, hts⟩ := h.last key signature ts hentry
          exact ⟨p, by simp [Ne.symm hk, hp], hsignature, hts⟩
      · rcases List.mem_cons.mp hp with rfl | hp
        · exact le_rfl
        · exact h.past p hp

theorem Inv.step (h : Inv c) (op : Op) : Inv (c.step op) := by
  cases op with
  | wait ns => exact ⟨h.last, fun p hp => (h.past p hp).trans (Nat.le_add_right _ _)⟩
  | observe call => exact h.observe call

/-- A call that is answered from the map is what was last posted under its key, less than two minutes
ago. -/
theorem Inv.of_cached (h : Inv c) (hc : c.cached call = true) :
    ∃ p, c.lastPost call = some p ∧ p.call.signature = call.signature ∧ p.sentAt ≤ c.clock ∧
      c.clock < p.sentAt + resendUnchanged := by
  unfold cached at hc
  split at hc
  · cases hc
  · rename_i signature ts hget
    obtain ⟨p, hp, hsignature, hts⟩ := h.last call.key signature ts hget
    simp only [Bool.and_eq_true, decide_eq_true_eq] at hc
    have hpast := h.past p (List.mem_of_find?_eq_some hp)
    exact ⟨p, hp, hsignature.trans hc.1, hpast, by omega⟩

/-! ## Posts that fail -/

/-- What the map would answer, the engine did: the last post under the key was answered 200, and for
this rule and subject. -/
def Backed (c : Client) (call : Call) : Prop :=
  c.cached call = true → ∀ p ∈ c.lastPost call, p.accepted ∧ p.call.rule = call.rule ∧ p.call.subject = call.subject

/-- When `observe` returns True, the engine took the same observation within two minutes. -/
def ToldTrue (c : Client) (call : Call) : Prop :=
  (c.observe call).2 = some true → ∃ p ∈ (c.observe call).1.posts, p.accepted ∧ p.call.rule = call.rule ∧
    p.call.subject = call.subject ∧ p.call.signature = call.signature ∧ p.sentAt ≤ c.clock ∧
      c.clock < p.sentAt + resendUnchanged

/-- After a failed post under its key, a call tries again. -/
def TriesAgain (c : Client) (call : Call) : Prop :=
  c.configured = true → ∀ p ∈ c.lastPost call, ¬ p.accepted → (c.observe call).1.posts = ⟨call, c.clock⟩ :: c.posts

def OnObserve (C : Client → Call → Prop) (c : Client) : Op → Prop
  | .wait _ => True
  | .observe call => C c call

theorem observe_posts (hconf : c.configured = true) :
    (c.observe call).1.posts = if c.cached call = true then c.posts else ⟨call, c.clock⟩ :: c.posts := by
  cases hc : c.cached call <;> simp [observe, hconf, hc]

theorem Inv.told (h : Inv c) (hb : Backed c call) : ToldTrue c call := by
  intro htrue
  simp only [Client.observe] at htrue ⊢
  cases hconf : c.configured with
  | false => simp [hconf] at htrue
  | true =>
    cases hcached : c.cached call with
    | true =>
      obtain ⟨p, hp, hsignature, hpast, hfresh⟩ := h.of_cached hcached
      obtain ⟨haccepted, hrule, hsubject⟩ := hb hcached p hp
      exact ⟨p, by simpa using List.mem_of_find?_eq_some hp, haccepted, hrule, hsubject, hsignature, hpast, hfresh⟩
    | false =>
      have haccepted : call.post.result = some true := by simpa [hconf, hcached] using htrue
      refine ⟨⟨call, c.clock⟩, by simp, haccepted, rfl, rfl, rfl, le_rfl, ?_⟩
      exact Nat.lt_add_of_pos_right (by decide)

theorem tries_of_backed (hb : Backed c call) : TriesAgain c call := by
  intro hconf p hp hrefused
  cases hcached : c.cached call with
  | true => exact absurd (hb hcached p hp).1 hrefused
  | false => simp [observe_posts hconf, hcached]

/-- An observation that was just posted is answered from the map while two minutes are not over, if the
map was not emptied. -/
theorem cached_after_post (ns : Nat) (hconf : c.configured = true) (hc : c.cached call = false) (hkey : call'.key = call.key)
    (hsignature : call'.signature = call.signature) :
    ((c.step (.observe call)).step (.wait ns)).cached call' = true ↔
      ns < resendUnchanged ∧ (c.last.set call.key (call.signature, c.clock)).entries.length ≤ maxKeys := by
  have hlast : ((c.step (.observe call)).step (.wait ns)).last = c.remember call := by
    simp [step, observe, hconf, hc]
  have hclock : ((c.step (.observe call)).step (.wait ns)).clock = c.clock + ns := by
    simp [step, observe, hconf, hc]
  rw [cached, hlast, hclock, hkey]
  by_cases hfull : maxKeys < (c.last.set call.key (call.signature, c.clock)).entries.length
  · simp [remember, hfull]
  · simp [remember, hfull, hsignature, not_lt.mp hfull]

theorem tries_again_iff (hconf : c.configured = true) (hc : c.cached call = false) (hkey : call'.key = call.key)
    (hsignature : call'.signature = call.signature) :
    (((c.step (.observe call)).step (.wait ns)).step (.observe call')).posts =
        ⟨call', c.clock + ns⟩ :: ⟨call, c.clock⟩ :: c.posts ↔
      resendUnchanged ≤ ns ∨ maxKeys < (c.last.set call.key (call.signature, c.clock)).entries.length := by
  have hcached := cached_after_post ns hconf hc hkey hsignature
  have hfirst : ((c.step (.observe call)).step (.wait ns)).posts = ⟨call, c.clock⟩ :: c.posts := by
    simp [step, observe_posts hconf, hc]
  have hclock : ((c.step (.observe call)).step (.wait ns)).clock = c.clock + ns := by
    simp [step, observe, hconf, hc]
  have hstill : ((c.step (.observe call)).step (.wait ns)).configured = true := by
    simp [step, observe, hconf, hc]
  have hposts := @observe_posts _ call' hstill
  have hdue : (resendUnchanged ≤ ns ∨ maxKeys < (c.last.set call.key (call.signature, c.clock)).entries.length) ↔
      ¬ ((c.step (.observe call)).step (.wait ns)).cached call' = true := by
    rw [hcached]
    omega
  rw [hdue]
  change (((c.step (.observe call)).step (.wait ns)).observe call').1.posts = _ ↔ _
  rw [hposts, hfirst, hclock]
  split
  · rename_i h
    simp [h]
  · rename_i h
    simp [h]

/-- In every run whose answers from the map the engine gave, a producer is told that an observation was
taken only when it was, and a failed post is tried again. Of two identical calls the second is posted
after a failed first exactly when two minutes are over or the map was emptied. -/
theorem told_when_taken (configured : Bool) (ops : List Op) :
    (Along step (OnObserve Backed) { configured := configured } ops →
      Along step (OnObserve fun c call => ToldTrue c call ∧ TriesAgain c call) { configured := configured } ops) ∧
    ∀ (c : Client) (call call' : Call) (ns : Nat), c.configured = true → c.cached call = false →
      call.post.result ≠ some true → call'.rule = call.rule → call'.subject = call.subject →
      call'.signature = call.signature →
      ((((c.step (.observe call)).step (.wait ns)).step (.observe call')).posts =
          ⟨call', c.clock + ns⟩ :: ⟨call, c.clock⟩ :: c.posts ↔
        resendUnchanged ≤ ns ∨ maxKeys < (c.last.set call.key (call.signature, c.clock)).entries.length) := by
  refine ⟨fun h => ?_, fun c call call' ns hconf hc _ hrule hsubject hsignature => ?_⟩
  · refine h.imp_of_invariant (inv_new configured) (fun c op hinv _ => hinv.step op) (fun c op hinv hop => ?_)
    cases op with
    | wait ns => trivial
    | observe call => exact ⟨hinv.told hop, tries_of_backed hop⟩
  · exact tries_again_iff hconf hc (by simp [Call.key, hrule, hsubject]) hsignature

def taken : Post := .answered ['H', 'T', 'T', 'P', '/', '1', '.', '0', ' ', '2', '0', '0', ' ', 'O', 'K']

def storageLow (post : Post) : Call := ⟨"monitoring.storage", "gateway", { active := some true }, post⟩

instance (C : Client → Call → Prop) [∀ c call, Decidable (C c call)] (c : Client) (op : Op) :
    Decidable (OnObserve C c op) :=
  match op with
  | .wait _ => inferInstanceAs (Decidable True)
  | .observe call => inferInstanceAs (Decidable (C c call))

instance (c : Client) (call : Call) : Decidable (Backed c call) :=
  inferInstanceAs (Decidable (_ → ∀ p ∈ c.lastPost call, _))

/-- Taken, answered from the map, and posted again after two minutes. -/
def storageReports : List Op :=
  [.observe (storageLow taken), .wait 10000000000, .observe (storageLow .unreachable), .wait 110000000000,
    .observe (storageLow .unreachable)]

theorem told_when_taken_storage :
    Along step (OnObserve fun c call => ToldTrue c call ∧ TriesAgain c call) { configured := true } storageReports ∧
    ¬ ((((({ configured := true } : Client).step (.observe (storageLow .unreachable))).step (.wait 10)).step
        (.observe (storageLow taken))).posts = [⟨storageLow taken, 10⟩, ⟨storageLow .unreachable, 0⟩]) := by
  obtain ⟨hruns, hagain⟩ := told_when_taken true storageReports
  refine ⟨hruns (by decide +kernel), fun h => ?_⟩
  have hdue := (hagain { configured := true } (storageLow .unreachable) (storageLow taken) 10 rfl (by decide +kernel)
    (by decide) rfl rfl rfl).mp h
  exact absurd hdue (by decide +kernel)

/-- The engine is down for one report; the next, ten seconds later, is told that it was taken. -/
theorem told_without_taken :
    ¬ ∀ (configured : Bool) (ops : List Op),
      Along step (OnObserve fun c call => ToldTrue c call ∧ TriesAgain c call) { configured := configured } ops := by
  intro h
  obtain ⟨-, -, ⟨htold, -⟩, -⟩ := h true [.observe (storageLow .unreachable), .wait 10000000000, .observe (storageLow taken)]
  obtain ⟨p, hp, haccepted, -⟩ := htold (by decide +kernel)
  have hposts : ((run step { configured := true }
      [.observe (storageLow .unreachable), .wait 10000000000, .observe (storageLow taken)]).posts) =
      [⟨storageLow .unreachable, 0⟩] := by
    decide +kernel
  obtain rfl : p = ⟨storageLow .unreachable, 0⟩ := by
    have hmem : p ∈ [(⟨storageLow .unreachable, 0⟩ : Posted)] := hposts ▸ hp
    simpa using hmem
  exact absurd haccepted (by decide)

end Client

end EasyHaProxy.AlertClient
