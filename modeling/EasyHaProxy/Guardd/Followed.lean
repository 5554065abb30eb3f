import EasyHaProxy.Guardd.Basic

/-! What is known about one address: the code its entry is flagged with, whether the last read of the table
had it, the code it is followed with and what was written down about it. -/
namespace EasyHaProxy.Guardd.OwnBans

/-- A row of an address's decisions that begins or ends a ban. -/
abbrev Note := DecisionAction × Int

structure Track where
  code : Option Int
  known : Bool
  followed : Option Int
  notes : List Note

/-- How far the notes have come: nothing of HAProxy's seen yet, one of its bans standing, or the
last one ended. -/
inductive Course
  | never
  | standing (code : Int)
  | ended
  deriving DecidableEq

/-- One more note. A standing ban is ended once, by its own code or, where the operator lifts it together
with a ban of guardd's or the operator's, by theirs; then only such a ban can be lifted until the next
one is observed. -/
def Course.note : Course → Note → Option Course
  | .standing _, (.observed, _) => none
  | _, (.observed, c) => some (.standing c)
  | .standing c, (.ended, d) => if d = c then some .ended else none
  | _, (.ended, _) => none
  | .never, (.lifted, _) => some .never
  | .standing c, (.lifted, d) => if d = c ∨ d ∈ ownBanCodes then some .ended else none
  | .ended, (.lifted, d) => if d ∈ ownBanCodes then some .ended else none
  | course, _ => some course

/-- Every ban of HAProxy's that was observed is ended exactly once before the next. -/
def course (notes : List Note) : Option Course := notes.foldlM Course.note .never

/-- What the reads have shown of an address: the code at the last one, whether that entry already stood
when the recording began, whether guardd has taken it off since, and whether an operator has asked
for that. -/
structure Sight where
  read : Option Int
  old : Bool
  off : Bool := false
  asked : Bool := false

namespace Track

/-- A ban of HAProxy's own in the table for the first time. -/
def appear (t : Track) : Track :=
  match t.code with
  | some c => if c ∈ legacyBanCodes then { t with followed := some c, notes := t.notes ++ [(.observed, c)] } else t
  | none => t

/-- A ban that is followed and gone, or another one now. -/
def close (t : Track) : Track :=
  match t.followed with
  | some c => if t.code = some c then t else { t with followed := none, notes := t.notes ++ [(.ended, c)] }
  | none => t

/-- One read of the table. -/
def observe (t : Track) : Track :=
  { (if t.known then t else t.appear).close with known := t.code.isSome }

/-- What the rest of a cycle may do: put an entry of guardd's or none in place of one, and lift one
of HAProxy's. -/
structure Rest (t t' : Track) : Prop where
  known : t'.known = t.known
  code : ∀ c ∈ legacyBanCodes, t'.code = some c → t.code = some c
  notes : t'.followed = t.followed ∧ t'.notes = t.notes ∨
    ∃ c ∈ legacyBanCodes, t.code = some c ∧ t'.code ≠ t.code ∧ t'.followed = none ∧ t'.notes = t.notes ++ [(.lifted, c)]

/-- What an operator's unban of the address may do once it returns. -/
structure Unbanned (t t' : Track) : Prop where
  known : t'.known = t.known
  followed : t'.followed = none
  notes : t'.notes = t.notes ∧ t.followed = none ∨
    ∃ c, (c ∈ ownBanCodes ∨ t.followed = some c) ∧ t'.notes = t.notes ++ [(.lifted, c)]

end Track

theorem Track.code_of_followed_close {t : Track} {c : Int} (h : t.close.followed = some c) : t.close.code = some c := by
  unfold Track.close at h ⊢
  split at h <;> rename_i hf
  · split at h
    · rename_i hc
      obtain rfl := Option.some.inj (hf.symm.trans h)
      rw [if_pos hc]
      exact hc
    · cases h
  · rw [hf] at h
    cases h

namespace Sight

/-- A cycle that read `code` and left `code'` in the table. -/
def ingest (s : Sight) (code code' : Option Int) : Sight where
  read := code
  old := s.old && code.isSome && s.read == code && !s.off
  off := code' != code

/-- An operator's unban that found `code` in the table and left `code'`. -/
def unban (s : Sight) (code code' : Option Int) (returned : Bool) : Sight :=
  { s with off := s.off || code' != code, asked := s.asked || returned }

/-- A ban of HAProxy's that the last read had too is the same one still: it has kept its code, guardd has
not taken it off meanwhile, and no operator has asked for that unless it is older than the recording. -/
def Continues (s : Sight) (code : Option Int) : Prop :=
  ∀ c ∈ legacyBanCodes, code = some c → s.read.isSome → s.read = some c ∧ s.off = false ∧ (s.asked → s.old)

end Sight

/-- What is followed is what the last read had and what stands in the notes. -/
structure Follows (t : Track) (s : Sight) : Prop where
  known : t.known = s.read.isSome
  followed : ∀ c, t.followed = some c → c ∈ legacyBanCodes ∧ s.read = some c ∧ s.old = false
  found : ∀ c ∈ legacyBanCodes, s.read = some c → s.old = false → s.off = false → s.asked = false → t.followed = some c
  old : s.old = true → course t.notes = some .never
  standing : ∀ c, t.followed = some c → course t.notes = some (.standing c)
  idle : t.followed = none → course t.notes = some .never ∨ course t.notes = some .ended

variable {t t' : Track} {s : Sight} {c : Int} {notes : List Note} {n : Note}

theorem course_concat : course (notes ++ [n]) = (course notes).bind (·.note n) := by
  unfold course
  rw [List.foldlM_append]
  cases notes.foldlM Course.note .never with
  | none => rfl
  | some k => simp

theorem course_observed (h : course notes = some .never ∨ course notes = some .ended) :
    course (notes ++ [(.observed, c)]) = some (.standing c) := by
  rw [course_concat]
  rcases h with h | h <;> rw [h] <;> rfl

theorem course_ended (h : course notes = some (.standing c)) : course (notes ++ [(.ended, c)]) = some .ended := by
  rw [course_concat, h]
  simp [Course.note]

theorem course_lifted (h : course notes = some (.standing c)) {d : Int} (hd : d = c ∨ d ∈ ownBanCodes) :
    course (notes ++ [(.lifted, d)]) = some .ended := by
  rw [course_concat, h]
  simp [Course.note, hd]

theorem course_lifted_never (h : course notes = some .never) : course (notes ++ [(.lifted, c)]) = some .never := by
  rw [course_concat, h]
  rfl

theorem course_lifted_own (h : course notes = some .never ∨ course notes = some .ended) (hc : c ∈ ownBanCodes) :
    course (notes ++ [(.lifted, c)]) = course notes := by
  rw [course_concat]
  rcases h with h | h
  · rw [h]
    rfl
  · rw [h]
    simp [Course.note, hc]

namespace Follows

theorem course_isSome (h : Follows t s) : (course t.notes).isSome = true := by
  cases hf : t.followed with
  | some c => rw [h.standing c hf]; rfl
  | none => rcases h.idle hf with he | he <;> rw [he] <;> rfl

/-- HAProxy may do with the entry what it likes. -/
theorem outside (h : Follows t s) (code : Option Int) : Follows { t with code } s :=
  ⟨h.known, h.followed, h.found, h.old, h.standing, h.idle⟩

end Follows

/-! ## A read -/

/-- What a read leaves: `old` says whether the entry it shows is older than the recording. -/
structure Seen (t t' : Track) (old : Bool) : Prop where
  code : t'.code = t.code
  known : t'.known = t.code.isSome
  followed : ∀ c, t'.followed = some c → c ∈ legacyBanCodes ∧ t.code = some c ∧ old = false
  found : ∀ c ∈ legacyBanCodes, t.code = some c → old = false → t'.followed = some c
  old : old = true → course t'.notes = some .never
  standing : ∀ c, t'.followed = some c → course t'.notes = some (.standing c)
  idle : t'.followed = none → course t'.notes = some .never ∨ course t'.notes = some .ended

theorem seen_close {old : Bool} (hknown : t'.code = t.code)
    (hlegacy : ∀ c, t'.followed = some c → c ∈ legacyBanCodes)
    (hold : old = true → course t'.notes = some .never)
    (hfound : ∀ c ∈ legacyBanCodes, t.code = some c → old = false → t'.followed = some c)
    (hstanding : ∀ c, t'.followed = some c → course t'.notes = some (.standing c))
    (hidle : t'.followed = none → course t'.notes = some .never ∨ course t'.notes = some .ended) :
    Seen t { t'.close with known := t.code.isSome } old := by
  cases hf : t'.followed with
  | none =>
    have hclose : t'.close = t' := by simp [Track.close, hf]
    rw [hclose]
    refine ⟨hknown, rfl, fun c hc => ?_, hfound, hold, hstanding, hidle⟩
    rw [hf] at hc
    cases hc
  | some c =>
    have hnew : old = false := by
      cases old with
      | false => rfl
      | true => rw [hold rfl] at hstanding; cases hstanding c hf
    by_cases hsame : t'.code = some c
    · have hclose : t'.close = t' := by simp [Track.close, hf, hsame]
      rw [hclose]
      refine ⟨hknown, rfl, fun d hd => ?_, hfound, hold, hstanding, hidle⟩
      obtain rfl : c = d := Option.some.inj (hf.symm.trans hd)
      exact ⟨hlegacy c hf, hknown ▸ hsame, hnew⟩
    · have hclose : t'.close = { t' with followed := none, notes := t'.notes ++ [(.ended, c)] } := by
        simp [Track.close, hf, hsame]
      rw [hclose]
      have hcourse := course_ended (hstanding c hf)
      refine ⟨hknown, rfl, nofun, fun d hd ht _ => ?_, fun h => ?_, nofun, fun _ => Or.inr hcourse⟩
      · -- What the table shows would be followed with its own code.
        have hd' := hfound d hd ht hnew
        obtain rfl : c = d := Option.some.inj (hf.symm.trans hd')
        exact absurd (hknown.trans ht) hsame
      · rw [hnew] at h
        cases h

theorem Follows.seen (h : Follows t s) (hs : s.Continues t.code) (code' : Option Int) :
    Seen t t.observe (s.ingest t.code code').old := by
  unfold Track.observe
  have hold : (s.ingest t.code code').old = true → s.old = true := by
    simp only [Sight.ingest, Bool.and_eq_true]
    exact fun h => h.1.1.1
  by_cases hknown : t.known = true
  · rw [if_pos hknown]
    refine seen_close rfl (fun c hc => (h.followed c hc).1) (fun ho => h.old (hold ho)) ?_ h.standing h.idle
    intro c hc ht ho
    rw [h.known] at hknown
    obtain ⟨hread, hoff, hasked⟩ := hs c hc ht hknown
    have hnew : s.old = false := by
      simpa [Sight.ingest, ht, hread, hoff] using ho
    refine h.found c hc hread hnew hoff ?_
    by_contra ha
    rw [hasked (by simpa using ha)] at hnew
    cases hnew
  · have hread : s.read = none := by
      rw [h.known] at hknown
      simpa using hknown
    have hnone : t.followed = none := by
      cases hf : t.followed with
      | none => rfl
      | some c =>
        rw [(h.followed c hf).2.1] at hread
        cases hread
    have hnew : (s.ingest t.code code').old = false := by
      simp only [Sight.ingest, hread]
      cases t.code <;> simp
    rw [if_neg hknown, hnew]
    unfold Track.appear
    cases hcode : t.code with
    | none =>
      dsimp only
      refine hcode ▸ seen_close rfl (fun c hc => (h.followed c hc).1) nofun ?_ h.standing h.idle
      intro c _ ht
      rw [hcode] at ht
      cases ht
    | some c =>
      dsimp only
      rw [show (some c).isSome = t.code.isSome by rw [hcode]]
      split
      · rename_i hc
        refine seen_close hcode.symm (fun d hd => ?_) nofun (fun d _ ht _ => ?_) (fun d hd => ?_) nofun
        · obtain rfl : c = d := Option.some.inj hd
          exact hc
        · exact hcode.symm.trans ht
        · obtain rfl : c = d := Option.some.inj hd
          exact course_observed (h.idle hnone)
      · rename_i hc
        refine seen_close rfl (fun d hd => (h.followed d hd).1) nofun (fun d hd ht _ => ?_) h.standing h.idle
        obtain rfl : c = d := Option.some.inj (hcode.symm.trans ht)
        exact absurd hd hc

/-! ## The rest of a cycle, and the operator -/

/-- A cycle: every ban of HAProxy's in the table afterwards that is younger than the recording is
followed. -/
theorem Follows.ingest (h : Follows t s) (hs : s.Continues t.code) (hr : Track.Rest t.observe t') :
    Follows t' (s.ingest t.code t'.code) ∧
      ∀ c ∈ legacyBanCodes, t'.code = some c → (s.ingest t.code t'.code).old = false → t'.followed = some c := by
  have hseen := h.seen hs t'.code
  have hread : (s.ingest t.code t'.code).read = t.code := rfl
  rcases hr.notes with ⟨hf, hn⟩ | ⟨c, hc, hcode, hgone, hf, hn⟩
  · have hfollow : Follows t' (s.ingest t.code t'.code) := by
      refine ⟨by rw [hr.known, hseen.known, hread], ?_, ?_, ?_, ?_, ?_⟩
      · intro c hc
        rw [hf] at hc
        exact hseen.followed c hc
      · intro c hc ht ho _ _
        rw [hf]
        exact hseen.found c hc ht ho
      · rw [hn]
        exact hseen.old
      · rw [hf, hn]
        exact hseen.standing
      · rw [hf, hn]
        exact hseen.idle
    refine ⟨hfollow, fun c hc ht ho => ?_⟩
    rw [hf]
    exact hseen.found c hc (hseen.code ▸ hr.code c hc ht) ho
  · rw [hseen.code] at hcode hgone
    -- The lift ends what was followed; an older ban has no notes of HAProxy's to end.
    have hcourse : (s.ingest t.code t'.code).old = true ∧ course t'.notes = some .never ∨
        (s.ingest t.code t'.code).old = false ∧ course t'.notes = some .ended := by
      rw [hn]
      cases ho : (s.ingest t.code t'.code).old with
      | true => exact Or.inl ⟨rfl, course_lifted_never (hseen.old ho)⟩
      | false => exact Or.inr ⟨rfl, course_lifted (hseen.standing c (hseen.found c hc hcode ho)) (Or.inl rfl)⟩
    have hoff : (s.ingest t.code t'.code).off = true := by simpa [Sight.ingest] using hgone
    refine ⟨⟨by rw [hr.known, hseen.known, hread], ?_, ?_, ?_, ?_, ?_⟩, ?_⟩
    · rw [hf]
      exact nofun
    · intro _ _ _ _ hno
      rw [hoff] at hno
      cases hno
    · intro ho
      rcases hcourse with hcourse | ⟨hno, -⟩
      · exact hcourse.2
      · rw [ho] at hno
        cases hno
    · rw [hf]
      exact nofun
    · exact fun _ => hcourse.imp And.right And.right
    · intro d hd ht
      have := hseen.code ▸ hr.code d hd ht
      exact absurd (ht.trans this.symm) hgone

theorem Track.Rest.refl (t : Track) : Rest t t := ⟨rfl, fun _ _ h => h, Or.inl ⟨rfl, rfl⟩⟩

/-- One lift at most: after it no entry of HAProxy's is left to lift. -/
theorem Track.Rest.trans {t₁ t₂ t₃ : Track} (h : Rest t₁ t₂) (h' : Rest t₂ t₃) : Rest t₁ t₃ := by
  refine ⟨h'.known.trans h.known, fun c hc ht => h.code c hc (h'.code c hc ht), ?_⟩
  rcases h.notes with ⟨hf, hn⟩ | ⟨c, hc, hcode, hgone, hf, hn⟩
  · rcases h'.notes with ⟨hf', hn'⟩ | ⟨c, hc, hcode', hgone', hf', hn'⟩
    · exact Or.inl ⟨hf'.trans hf, hn'.trans hn⟩
    · have hcode := h.code c hc hcode'
      exact Or.inr ⟨c, hc, hcode, by rwa [hcode, ← hcode'], hf', by rw [hn', hn]⟩
  · rcases h'.notes with ⟨hf', hn'⟩ | ⟨d, hd, hcode', hgone', hf', hn'⟩
    · refine Or.inr ⟨c, hc, hcode, fun hsame => hgone ?_, hf'.trans hf, hn'.trans hn⟩
      exact (h'.code c hc (hsame.trans hcode)).trans hcode.symm
    · exact absurd (hcode'.trans (h.code d hd hcode').symm) hgone

theorem Follows.unbanned (h : Follows t s) (hu : Track.Unbanned t t') : Follows t' (s.unban t.code t'.code true) := by
  have hcourse : course t'.notes = some .never ∨ s.old = false ∧ course t'.notes = some .ended := by
    rcases hu.notes with ⟨hn, hnone⟩ | ⟨c, hc, hn⟩
    · rw [hn]
      rcases h.idle hnone with he | he
      · exact Or.inl he
      · refine Or.inr ⟨?_, he⟩
        by_contra ho
        rw [h.old (by simpa using ho)] at he
        cases he
    · rw [hn]
      cases hf : t.followed with
      | some d =>
        refine Or.inr ⟨(h.followed d hf).2.2, course_lifted (h.standing d hf) ?_⟩
        rcases hc with hc | hc
        · exact Or.inr hc
        · exact Or.inl (Option.some.inj (hc.symm.trans hf))
      | none =>
        have hown : c ∈ ownBanCodes := hc.resolve_right (by rw [hf]; exact nofun)
        rw [course_lifted_own (h.idle hf) hown]
        rcases h.idle hf with he | he
        · exact Or.inl he
        · refine Or.inr ⟨?_, he⟩
          by_contra ho
          rw [h.old (by simpa using ho)] at he
          cases he
  refine ⟨by rw [hu.known]; exact h.known, ?_, ?_, ?_, ?_, ?_⟩
  · rw [hu.followed]
    exact nofun
  · intro _ _ _ _ _ hno
    simp [Sight.unban] at hno
  · intro ho
    rcases hcourse with hc | ⟨hno, -⟩
    · exact hc
    · exact absurd (show s.old = true from ho) (by simp [hno])
  · rw [hu.followed]
    exact nofun
  · exact fun _ => hcourse.imp_right And.right

/-- An unban that fails before it writes anything down. -/
theorem Follows.failed (h : Follows t s) (hknown : t'.known = t.known) (hfollowed : t'.followed = t.followed)
    (hnotes : t'.notes = t.notes) : Follows t' (s.unban t.code t'.code false) := by
  refine ⟨by rw [hknown]; exact h.known, ?_, ?_, ?_, ?_, ?_⟩
  · rw [hfollowed]
    exact h.followed
  · intro c hc hread hold hoff hasked
    rw [hfollowed]
    simp only [Sight.unban, Bool.or_eq_false_iff] at hoff hasked
    exact h.found c hc hread hold hoff.1 hasked.1
  · rw [hnotes]
    exact h.old
  · rw [hfollowed, hnotes]
    exact h.standing
  · rw [hfollowed, hnotes]
    exact h.idle

end EasyHaProxy.Guardd.OwnBans
