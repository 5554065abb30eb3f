import EasyHaProxy.Lib.Machine
import EasyHaProxy.Guardd.AccessLog
import Mathlib.Data.Rat.Defs

/-! Every line is folded into the digest of the minute its request ended in. The collector of the monitoring
page asks, on a thread of its own, for the minutes that are complete. -/
namespace EasyHaProxy.Guardd

open Machine

def digestBoundsMs : List Int :=
  [5, 10, 25, 50, 75, 100, 150, 200, 300, 500, 750, 1000, 1500, 2000, 3000, 5000, 10000, 30000]
def digestCloseSeconds : Int := 30
def digestKeepSeconds : Int := 3 * 3600
def digestMaxBackends : Nat := 200

/-- The first bucket whose bound holds the duration, or the one above them all. -/
def digestBucket (durationMs : Int) : Nat := digestBoundsMs.findIdx (durationMs ≤ ·)

/-- The keys of `DIGEST_REFUSALS`. -/
inductive DigestRefusal
  | geo | banned | rate | other
  deriving DecidableEq, Repr

def Refusal.kind : Refusal → DigestRefusal
  | .geo => .geo
  | .banned => .banned
  | .rateLimited => .rate
  | _ => .other

structure RefusedCounts where
  geo : Nat := 0
  banned : Nat := 0
  rate : Nat := 0
  other : Nat := 0
  deriving DecidableEq, Repr

namespace RefusedCounts

def get (c : RefusedCounts) : DigestRefusal → Nat
  | .geo => c.geo
  | .banned => c.banned
  | .rate => c.rate
  | .other => c.other

def increment (c : RefusedCounts) : DigestRefusal → RefusedCounts
  | .geo => { c with geo := c.geo + 1 }
  | .banned => { c with banned := c.banned + 1 }
  | .rate => { c with rate := c.rate + 1 }
  | .other => { c with other := c.other + 1 }

@[simp] theorem get_increment {c : RefusedCounts} {kind k : DigestRefusal} :
    (c.increment kind).get k = c.get k + if kind = k then 1 else 0 := by
  cases kind <;> cases k <;> simp [get, increment]

end RefusedCounts

structure Digest where
  backends : Dict String (List Nat) := Dict.empty
  refused : RefusedCounts := {}
  deriving DecidableEq

/-- `request.backend.split("/", 1)[0]`. -/
def ParsedRequest.backendName (request : ParsedRequest) : String :=
  String.ofList (request.backend.toList.takeWhile (· ≠ '/'))

/-- A server answered, and how soon is known. -/
def ParsedRequest.answered (request : ParsedRequest) : Bool :=
  request.refusal.isNone && !request.badRequest && decide (0 < request.status) &&
    decide (0 ≤ request.responseMs) && request.backendName ≠ "" && !noServer request.backend

def emptyHistogram : List Nat := List.replicate (digestBoundsMs.length + 1) 0

/-- The part of `add` under the lock, for one minute. -/
def Digest.count (digest : Digest) (request : ParsedRequest) : Digest :=
  match request.refusal with
  | some refusal => { digest with refused := digest.refused.increment refusal.kind }
  | none =>
    let bump (histogram : List Nat) := histogram.modify (digestBucket request.responseMs) (· + 1)
    match digest.backends.get? request.backendName with
    | some histogram =>
      { digest with backends := digest.backends.set request.backendName (bump histogram) }
    | none =>
      if digestMaxBackends ≤ digest.backends.entries.length then digest
      else { digest with backends := digest.backends.set request.backendName (bump emptyHistogram) }

structure MinuteDigests where
  minutes : Dict Int Digest := Dict.empty
  late : Nat := 0

/-- `int(ended) // 60 * 60`. -/
def minuteOf (ended : ℚ) : Int := ended.num.tdiv ended.den / 60 * 60

/-- What `complete` returns of one minute. -/
structure MinuteEntry where
  ts : Int
  digest : Digest
  deriving DecidableEq

namespace MinuteDigests

def add (self : MinuteDigests) (request : ParsedRequest) (ended : ℚ) (now : Int) : MinuteDigests :=
  let minute := minuteOf ended
  -- Its minute was already handed out as complete.
  if minute + 60 + digestCloseSeconds ≤ now then { self with late := self.late + 1 }
  else if request.refusal.isNone && !request.answered then self
  else { self with minutes := self.minutes.set minute ((self.minutes.getD minute {}).count request) }

/-- `complete`, as it leaves the digests. -/
def forget (self : MinuteDigests) (now : Int) : MinuteDigests :=
  { self with minutes := self.minutes.filter (fun minute _ => ¬ minute < now - digestKeepSeconds) }

/-- `complete`, what it returns: the complete minutes after `since`, oldest first. -/
def complete (self : MinuteDigests) (since now : Int) : List MinuteEntry :=
  let minutes := (self.forget now).minutes
  let ready := (minutes.keys.filter
    (fun minute => since < minute && minute + 60 + digestCloseSeconds ≤ now)).insertionSort (· ≤ ·)
  ready.filterMap (fun minute => (minutes.get? minute).map (fun digest => ⟨minute, digest⟩))

end MinuteDigests

/-! ## The reader and the collector -/

/-- A line as `ingest_log` folds it in: when its request ended, and the clock the poll that
read it started with. -/
structure ReadLine where
  request : ParsedRequest
  ended : ℚ
  now : Int

namespace ReadLine

def minute (line : ReadLine) : Int := minuteOf line.ended

def late (line : ReadLine) : Bool := line.minute + 60 + digestCloseSeconds ≤ line.now

def digestible (line : ReadLine) : Bool := line.request.refusal.isSome || line.request.answered

/-- The line belongs in a minute and did not come too late for it. -/
def inMinute (minute : Int) (line : ReadLine) : Bool :=
  line.digestible && !line.late && line.minute = minute

def refusedAs (kind : DigestRefusal) (line : ReadLine) : Bool :=
  line.request.refusal.map Refusal.kind = some kind

def answeredBy (backend : String) (bucket : Nat) (line : ReadLine) : Bool :=
  line.request.refusal.isNone && line.request.backendName = backend &&
    digestBucket line.request.responseMs = bucket

end ReadLine

/-- The two threads and the clock they share. `now` is what the poll under way read when it
started; `lines` and `given` record what was read and what was handed out. -/
structure DigestWorld where
  clock : Int
  now : Int
  digests : MinuteDigests := {}
  lines : List ReadLine := []
  given : List MinuteEntry := []

inductive DigestTurn
  | tick (seconds : Nat)
  | poll
  | line (request : ParsedRequest) (stamp : Option ℚ)
  | ask (since : Int)

namespace DigestWorld

def start (clock : Int) : DigestWorld := { clock := clock, now := clock }

/-- A line without a stamp counts as ended when its poll started. -/
def read (w : DigestWorld) (request : ParsedRequest) (stamp : Option ℚ) : ReadLine :=
  ⟨request, stamp.getD w.now, w.now⟩

def step (w : DigestWorld) : DigestTurn → DigestWorld
  | .tick seconds => { w with clock := w.clock + seconds }
  | .poll => { w with now := w.clock }
  | .line request stamp =>
    { w with
      digests := w.digests.add request (w.read request stamp).ended w.now
      lines := w.lines ++ [w.read request stamp] }
  | .ask since =>
    { w with
      digests := w.digests.forget w.clock
      given := w.given ++ w.digests.complete since w.clock }

end DigestWorld

/-! ## What a digest holds -/

structure Digest.Holds (digest : Digest) (lines : List ReadLine) : Prop where
  refused : ∀ kind, digest.refused.get kind = lines.countP (ReadLine.refusedAs kind)
  answered : ∀ backend bucket, (digest.backends.getD backend []).getD bucket 0 =
    lines.countP (ReadLine.answeredBy backend bucket)
  full : ∀ backend histogram, digest.backends.get? backend = some histogram →
    histogram.length = digestBoundsMs.length + 1

def Digest.Counts (digest : Digest) (line : ReadLine) : Prop :=
  match line.request.refusal with
  | some refusal => 0 < digest.refused.get refusal.kind
  | none => 0 < (digest.backends.getD line.request.backendName []).getD (digestBucket line.request.responseMs) 0

/-- A digest has room for a request: it was refused, or its backend is known, or fewer than
`DIGEST_MAX_BACKENDS` are. -/
def Digest.Room (digest : Digest) (request : ParsedRequest) : Prop :=
  request.refusal = none → digest.backends.get? request.backendName = none →
    digest.backends.entries.length < digestMaxBackends

namespace Digest

variable {digest : Digest} {lines : List ReadLine} {line : ReadLine} {refusal : Refusal}
  {histogram : List Nat}

theorem holds_nil : Holds {} [] :=
  ⟨fun kind => by cases kind <;> rfl, fun _ _ => rfl, fun _ _ h => by cases h⟩

theorem Holds.counts (h : digest.Holds lines) (hl : line ∈ lines) : digest.Counts line := by
  unfold Counts
  cases hr : line.request.refusal with
  | some refusal =>
    simp only [h.refused]
    exact List.countP_pos_iff.mpr ⟨line, hl, by simp [ReadLine.refusedAs, hr]⟩
  | none =>
    simp only [h.answered]
    exact List.countP_pos_iff.mpr ⟨line, hl, by simp [ReadLine.answeredBy, hr]⟩

theorem getD_modify {bucket i : Nat} (h : bucket < histogram.length) :
    (histogram.modify bucket (· + 1)).getD i 0 = histogram.getD i 0 + if bucket = i then 1 else 0 := by
  by_cases hi : bucket = i
  · subst hi
    simp [List.getD_eq_getElem?_getD, h]
  · simp [List.getD_eq_getElem?_getD, hi]

theorem Holds.refuse (h : digest.Holds lines) (hr : line.request.refusal = some refusal) :
    Holds { digest with refused := digest.refused.increment refusal.kind } (lines ++ [line]) := by
  refine ⟨fun kind => ?_, fun backend bucket => ?_, h.full⟩
  · simp [List.countP_append, ← h.refused kind, ReadLine.refusedAs, hr, List.countP_singleton]
  · simp [List.countP_append, ← h.answered backend bucket, ReadLine.answeredBy, hr]

theorem Holds.answer (h : digest.Holds lines) (hr : line.request.refusal = none)
    (hlen : histogram.length = digestBoundsMs.length + 1)
    (hold : ∀ i, histogram.getD i 0 = (digest.backends.getD line.request.backendName []).getD i 0) :
    Holds
      { digest with
        backends := digest.backends.set line.request.backendName
          (histogram.modify (digestBucket line.request.responseMs) (· + 1)) }
      (lines ++ [line]) := by
  have hbucket : digestBucket line.request.responseMs < histogram.length := by
    have hle : digestBucket line.request.responseMs ≤ digestBoundsMs.length := List.findIdx_le_length
    rw [hlen]
    exact Nat.lt_succ_of_le hle
  refine ⟨fun kind => ?_, fun backend bucket => ?_, fun backend other hget => ?_⟩
  · simp [List.countP_append, ← h.refused kind, ReadLine.refusedAs, hr]
  · rw [List.countP_append, ← h.answered backend bucket, List.countP_singleton]
    by_cases hb : line.request.backendName = backend
    · subst hb
      rw [Dict.getD, Dict.get?_set, if_pos rfl, Option.getD_some, getD_modify hbucket, hold]
      simp [ReadLine.answeredBy, hr]
    · have hb' : ¬ backend = line.request.backendName := fun e => hb e.symm
      simp [Dict.getD, hb', ReadLine.answeredBy, hb]
  · rw [Dict.get?_set] at hget
    split at hget
    · obtain rfl := Option.some.inj hget
      simpa using hlen
    · exact h.full backend other hget

theorem Holds.count (h : digest.Holds lines) (hroom : digest.Room line.request) :
    (digest.count line.request).Holds (lines ++ [line]) := by
  unfold Digest.count
  cases hr : line.request.refusal with
  | some refusal => exact h.refuse hr
  | none =>
    cases hb : digest.backends.get? line.request.backendName with
    | some histogram =>
      refine h.answer hr (h.full _ _ hb) (fun i => ?_)
      rw [Dict.getD_eq_of_get? hb]
    | none =>
      simp only [if_neg (not_le.mpr (hroom hr hb))]
      refine h.answer hr (by simp [emptyHistogram]) (fun i => ?_)
      simp only [emptyHistogram, Dict.getD, hb, List.getD_eq_getElem?_getD, List.getElem?_replicate]
      split <;> rfl

end Digest

/-! ## A minute handed out is final -/

namespace DigestWorld

variable {w : DigestWorld} {minute : Int} {turns : List DigestTurn}

def linesOf (w : DigestWorld) (minute : Int) : List ReadLine :=
  w.lines.filter (ReadLine.inMinute minute)

def digestOf (w : DigestWorld) (minute : Int) : Digest := w.digests.minutes.getD minute {}

/-- A line that its poll's clock lets into its minute finds the minute not yet handed out,
and room in it. -/
def Timely (w : DigestWorld) : DigestTurn → Prop
  | .line request stamp =>
    let line := w.read request stamp
    line.digestible → line.late = false →
      (∀ e ∈ w.given, e.ts ≠ line.minute) ∧ (w.digestOf line.minute).Room request
  | _ => True

/-- What stays true of the digests, the lines read and the minutes handed out. -/
structure Tallied (w : DigestWorld) : Prop where
  held : ∀ minute, w.clock - digestKeepSeconds ≤ minute →
    (w.digestOf minute).Holds (w.linesOf minute)
  stored : ∀ line ∈ w.lines, line.digestible → line.late = false → w.clock - digestKeepSeconds ≤ line.minute →
    w.digests.minutes.get? line.minute ≠ none
  given : ∀ e ∈ w.given, e.digest.Holds (w.linesOf e.ts)
  kept : ∀ e ∈ w.given, w.clock - digestKeepSeconds ≤ e.ts →
    w.digests.minutes.get? e.ts = some e.digest
  closed : ∀ e ∈ w.given, e.ts + 60 + digestCloseSeconds ≤ w.clock
  once : ∀ e ∈ w.given, ∀ e' ∈ w.given, e.ts = e'.ts → e = e'
  late : w.digests.late = w.lines.countP ReadLine.late

theorem tallied_start (clock : Int) : Tallied (start clock) where
  held := fun _ _ => Digest.holds_nil
  stored := fun _ h => by cases h
  given := fun _ h => by cases h
  kept := fun _ h => by cases h
  closed := fun _ h => by cases h
  once := fun _ h => by cases h
  late := rfl

theorem mem_complete {since now : Int} {e : MinuteEntry} {digests : MinuteDigests} :
    e ∈ digests.complete since now ↔ digests.minutes.get? e.ts = some e.digest ∧ since < e.ts ∧
      e.ts + 60 + digestCloseSeconds ≤ now ∧ now - digestKeepSeconds ≤ e.ts := by
  unfold MinuteDigests.complete
  simp only [List.mem_filterMap, List.mem_insertionSort, List.mem_filter, Bool.and_eq_true,
    decide_eq_true_eq, Option.map_eq_some_iff]
  constructor
  · rintro ⟨minute, ⟨-, hsince, hclosed⟩, digest, hget, rfl⟩
    obtain ⟨hget, hkeep⟩ : digests.minutes.get? minute = some digest ∧ now - digestKeepSeconds ≤ minute := by
      simpa only [MinuteDigests.forget, Dict.get?_filter, Option.filter_eq_some_iff, decide_eq_true_eq,
        Int.not_lt]
        using hget
    exact ⟨hget, hsince, hclosed, hkeep⟩
  · rintro ⟨hget, hsince, hclosed, hkeep⟩
    have hmem : (digests.forget now).minutes.get? e.ts = some e.digest := by
      simpa only [MinuteDigests.forget, Dict.get?_filter, Option.filter_eq_some_iff, decide_eq_true_eq,
        Int.not_lt]
        using ⟨hget, hkeep⟩
    exact ⟨e.ts, ⟨Dict.mem_keys.mpr (by simp [hmem]), hsince, hclosed⟩, e.digest, hmem, rfl⟩

theorem Tallied.later (h : Tallied w) (seconds : Nat) :
    Tallied { w with clock := w.clock + seconds } where
  held := fun minute hm => h.held minute (by simp only at hm; omega)
  stored := fun line hl hdig hlate hm => h.stored line hl hdig hlate (by simp only at hm; omega)
  given := h.given
  kept := fun e he hm => h.kept e he (by simp only at hm; omega)
  closed := fun e he => by
    have := h.closed e he
    simp only
    omega
  once := h.once
  late := h.late

theorem Tallied.skip {line : ReadLine} {digests : MinuteDigests} (h : Tallied w)
    (hno : ∀ minute, line.inMinute minute = false) (hminutes : digests.minutes = w.digests.minutes)
    (hlate : digests.late = w.digests.late + if line.late then 1 else 0) :
    Tallied { w with digests := digests, lines := w.lines ++ [line] } := by
  have hlines : ∀ minute, linesOf { w with digests := digests, lines := w.lines ++ [line] } minute =
      w.linesOf minute := by
    intro minute
    simp [linesOf, List.filter_append, hno minute]
  refine ⟨fun minute hm => ?_, fun old hold hdig htime hm => ?_, fun e he => ?_, fun e he hm => ?_, h.closed, h.once,
    ?_⟩
  · rw [hlines, digestOf, hminutes]
    exact h.held minute hm
  · simp only [hminutes]
    rcases List.mem_append.mp hold with hold | hnew
    · exact h.stored old hold hdig htime hm
    · obtain rfl := List.mem_singleton.mp hnew
      have hout := hno old.minute
      simp [ReadLine.inMinute, hdig, htime] at hout
  · rw [hlines]
    exact h.given e he
  · simp only [hminutes]
    exact h.kept e he hm
  · simp only [hlate, h.late, List.countP_append, List.countP_singleton]

/-- A line that belongs in a minute not yet handed out is counted there. -/
theorem Tallied.take {line : ReadLine} (h : Tallied w) (hin : line.inMinute line.minute = true)
    (hlate : line.late = false) (hopen : ∀ e ∈ w.given, e.ts ≠ line.minute)
    (hroom : (w.digestOf line.minute).Room line.request) :
    Tallied
      { w with
        digests :=
          { w.digests with
            minutes := w.digests.minutes.set line.minute ((w.digestOf line.minute).count line.request) }
        lines := w.lines ++ [line] } := by
  have hother : ∀ minute, minute ≠ line.minute → line.inMinute minute = false := by
    intro minute hne
    simp [ReadLine.inMinute, Ne.symm hne]
  refine ⟨fun minute hm => ?_, fun old hold hdig hlate hm => ?_, fun e he => ?_, fun e he hm => ?_, h.closed, h.once,
    ?_⟩
  · by_cases hmin : minute = line.minute
    · subst hmin
      simpa [digestOf, linesOf, Dict.getD, List.filter_append, hin] using (h.held _ hm).count hroom
    · simpa [digestOf, linesOf, Dict.getD, List.filter_append, hmin, hother minute hmin] using
        h.held minute hm
  · by_cases hmin : old.minute = line.minute
    · simp [hmin]
    · rcases List.mem_append.mp hold with hold | hnew
      · simpa [hmin] using h.stored old hold hdig hlate hm
      · exact absurd (congrArg ReadLine.minute (List.mem_singleton.mp hnew)) hmin
  · simpa [linesOf, List.filter_append, hother e.ts (hopen e he)] using h.given e he
  · simpa [hopen e he] using h.kept e he hm
  · simp [h.late, List.countP_append, hlate]

theorem get?_forget {digests : MinuteDigests} {now : Int} (h : now - digestKeepSeconds ≤ minute) :
    (digests.forget now).minutes.get? minute = digests.minutes.get? minute := by
  have hkept : (decide ¬ minute < now - digestKeepSeconds) = true := decide_eq_true (Int.not_lt.mpr h)
  cases hget : digests.minutes.get? minute <;>
    simp only [MinuteDigests.forget, Dict.get?_filter, hget, Option.filter, hkept, if_true]

theorem entry_eq {digests : MinuteDigests} {e e' : MinuteEntry}
    (he : digests.minutes.get? e.ts = some e.digest) (he' : digests.minutes.get? e'.ts = some e'.digest)
    (hts : e.ts = e'.ts) : e = e' := by
  cases e
  cases e'
  simp_all

theorem Tallied.ask (h : Tallied w) (since : Int) : Tallied (w.step (.ask since)) := by
  have hget : ∀ e ∈ (w.step (.ask since)).given, w.clock - digestKeepSeconds ≤ e.ts →
      w.digests.minutes.get? e.ts = some e.digest := by
    intro e he hm
    rcases List.mem_append.mp he with he | he
    · exact h.kept e he hm
    · exact (mem_complete.mp he).1
  have hkeep : ∀ e ∈ w.digests.complete since w.clock, w.clock - digestKeepSeconds ≤ e.ts :=
    fun e he => (mem_complete.mp he).2.2.2
  refine ⟨fun minute hm => ?_, fun line hl hdig hlate hm => ?_, fun e he => ?_, fun e he hm => ?_, fun e he => ?_, ?_,
    h.late⟩
  · have hd : (w.step (.ask since)).digestOf minute = w.digestOf minute := by
      exact congrArg (·.getD {}) (get?_forget hm)
    rw [hd]
    exact h.held minute hm
  · rw [show (w.step (.ask since)).digests.minutes.get? line.minute = w.digests.minutes.get? line.minute from
      get?_forget hm]
    exact h.stored line hl hdig hlate hm
  · rcases List.mem_append.mp he with he | he
    · exact h.given e he
    · have := h.held e.ts (hkeep e he)
      rwa [digestOf, Dict.getD_eq_of_get? (mem_complete.mp he).1] at this
  · exact (get?_forget hm).trans (hget e he hm)
  · rcases List.mem_append.mp he with he | he
    · exact h.closed e he
    · exact (mem_complete.mp he).2.2.1
  · intro e he e' he' hts
    by_cases hm : w.clock - digestKeepSeconds ≤ e.ts
    · exact entry_eq (hget e he hm) (hget e' he' (hts ▸ hm)) hts
    -- Too old to be handed out by this call: both were handed out before.
    · have hold : ∀ e ∈ (w.step (.ask since)).given, ¬ w.clock - digestKeepSeconds ≤ e.ts → e ∈ w.given := by
        intro e he hm
        rcases List.mem_append.mp he with he | he
        · exact he
        · exact absurd (hkeep e he) hm
      exact h.once e (hold e he hm) e' (hold e' he' (hts ▸ hm)) hts

theorem add_eq (digests : MinuteDigests) (line : ReadLine) :
    digests.add line.request line.ended line.now =
      if line.late then { digests with late := digests.late + 1 }
      else if line.digestible then
        { digests with
          minutes := digests.minutes.set line.minute ((digests.minutes.getD line.minute {}).count line.request) }
      else digests := by
  unfold MinuteDigests.add ReadLine.late ReadLine.digestible ReadLine.minute
  cases line.request.refusal <;> cases line.request.answered <;> simp

theorem Tallied.line {request : ParsedRequest} {stamp : Option ℚ} (h : Tallied w)
    (ht : Timely w (.line request stamp)) : Tallied (w.step (.line request stamp)) := by
  have hstep : w.step (.line request stamp) =
      { w with
        digests := w.digests.add (w.read request stamp).request (w.read request stamp).ended (w.read request stamp).now
        lines := w.lines ++ [w.read request stamp] } := rfl
  rw [hstep, add_eq]
  cases hlate : (w.read request stamp).late with
  | true => exact h.skip (fun minute => by simp [ReadLine.inMinute, hlate]) rfl (by simp [hlate])
  | false =>
    cases hdig : (w.read request stamp).digestible with
    | true =>
      obtain ⟨hopen, hroom⟩ := ht hdig hlate
      exact h.take (by simp [ReadLine.inMinute, hdig, hlate]) hlate hopen hroom
    | false => exact h.skip (fun minute => by simp [ReadLine.inMinute, hdig]) rfl (by simp [hlate])

theorem Tallied.step {turn : DigestTurn} (h : Tallied w) (ht : Timely w turn) : Tallied (w.step turn) := by
  cases turn with
  | tick seconds => exact h.later seconds
  | poll => exact ⟨h.held, h.stored, h.given, h.kept, h.closed, h.once, h.late⟩
  | line request stamp => exact h.line ht
  | ask since => exact h.ask since

/-- A minute handed out is final: all that was handed out of it is the same and holds each of
its requests once, and it is handed out again while it is kept. A digestible request was late and
counted as that, or whatever was handed out of its minute has counted it, and so has what is handed
out to whoever asks for it while it is kept. -/
structure Final (w : DigestWorld) : Prop where
  same : ∀ e ∈ w.given, ∀ e' ∈ w.given, e.ts = e'.ts → e = e'
  whole : ∀ e ∈ w.given, e.digest.Holds (w.linesOf e.ts)
  again : ∀ e ∈ w.given, ∀ since, since < e.ts → w.clock - digestKeepSeconds ≤ e.ts →
    e ∈ w.digests.complete since w.clock
  accounted : ∀ line ∈ w.lines, line.digestible → line.late ∨
    (∀ e ∈ w.given, e.ts = line.minute → e.digest.Counts line) ∧
      ∀ since, since < line.minute → line.minute + 60 + digestCloseSeconds ≤ w.clock →
        w.clock - digestKeepSeconds ≤ line.minute →
        ∃ e ∈ w.digests.complete since w.clock, e.ts = line.minute ∧ e.digest.Counts line ∧
          e.digest.Holds (w.linesOf line.minute)
  late : w.digests.late = w.lines.countP ReadLine.late

theorem Tallied.accounts (h : Tallied w) {line : ReadLine} (hl : line ∈ w.lines) (hdig : line.digestible)
    (hlate : line.late = false) :
    (∀ e ∈ w.given, e.ts = line.minute → e.digest.Counts line) ∧
      ∀ since, since < line.minute → line.minute + 60 + digestCloseSeconds ≤ w.clock →
        w.clock - digestKeepSeconds ≤ line.minute →
        ∃ e ∈ w.digests.complete since w.clock, e.ts = line.minute ∧ e.digest.Counts line ∧
          e.digest.Holds (w.linesOf line.minute) := by
  have hin : line ∈ w.linesOf line.minute := List.mem_filter.mpr ⟨hl, by simp [ReadLine.inMinute, hdig, hlate]⟩
  refine ⟨fun e he hts => (h.given e he).counts (hts ▸ hin), fun since hs hclosed hm => ?_⟩
  obtain ⟨digest, hget⟩ := Option.ne_none_iff_exists'.mp (h.stored line hl hdig hlate hm)
  have hheld := h.held line.minute hm
  rw [digestOf, Dict.getD_eq_of_get? hget] at hheld
  exact ⟨⟨line.minute, digest⟩, mem_complete.mpr ⟨hget, hs, hclosed, hm⟩, rfl, hheld.counts hin, hheld⟩

/-- Minutes are final in every run in which each line that its poll's clock lets into a
minute finds it not yet handed out and with room. -/
theorem minute_is_final (clock : Int) (turns : List DigestTurn) (h : Along step Timely (start clock) turns) :
    Final (run step (start clock) turns) := by
  have ht : Tallied (run step (start clock) turns) :=
    h.keeps (tallied_start clock) (fun _ _ hs hc => hs.step hc)
  refine ⟨ht.once, ht.given, fun e he since hs hm => ?_, fun line hl hdig => ?_, ht.late⟩
  · exact mem_complete.mpr ⟨ht.kept e he hm, hs, ht.closed e he, hm⟩
  · cases hlate : line.late with
    | true => exact Or.inl rfl
    | false => exact Or.inr (ht.accounts hl hdig hlate)

instance (w : DigestWorld) (turn : DigestTurn) : Decidable (Timely w turn) :=
  match turn with
  | .line request stamp =>
    inferInstanceAs (Decidable ((w.read request stamp).digestible = true →
      (w.read request stamp).late = false →
      (∀ e ∈ w.given, e.ts ≠ (w.read request stamp).minute) ∧
        (request.refusal = none →
          (w.digestOf (w.read request stamp).minute).backends.get? request.backendName = none →
          (w.digestOf (w.read request stamp).minute).backends.entries.length < digestMaxBackends)))
  | .tick _ | .poll | .ask _ => inferInstanceAs (Decidable True)

def pageView : ParsedRequest :=
  { clientIp := "10.0.0.1", status := 200, backend := "web/s1", responseMs := 12 }

/-- The collector asks, a line of the minute comes after that in a later poll, and the
collector asks again. -/
def lateLine : List DigestTurn :=
  [.poll, .line pageView (some 70), .tick 50, .ask 0, .poll, .line pageView (some 119), .ask 0]

theorem minute_is_final_late_line :
    Along step Timely (start 100) lateLine ∧ (run step (start 100) lateLine).given.length = 2 ∧
      Final (run step (start 100) lateLine) :=
  have h : Along step Timely (start 100) lateLine := by decide +kernel
  ⟨h, by decide +kernel, minute_is_final 100 lateLine h⟩

/-- The same, but the poll started a second before the minute was complete. -/
def slowPoll : List DigestTurn :=
  [.poll, .line pageView (some 70), .tick 49, .poll, .tick 1, .ask 0, .line pageView (some 119), .ask 0]

theorem minute_changes_after_hand_out : ¬ ∀ clock turns, Final (run step (start clock) turns) := by
  intro h
  refine absurd (h 100 slowPoll).same ?_
  decide +kernel

end DigestWorld

end EasyHaProxy.Guardd
