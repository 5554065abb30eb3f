import Mathlib.Data.List.Infix
import Mathlib.Data.List.TakeDrop
import Mathlib.Data.Nat.Find

/-! A pattern is replaced in a text from left to right, wherever neither the letter before it nor the letter
after it belongs to a word; and the runs of letters of one kind in a text. -/
namespace EasyHaProxy.Replace

variable {α : Type} [DecidableEq α] (inside : α → Bool) (old new : List α)

/-- No letter of a word. -/
def outside : Option α → Bool
  | none => true
  | some c => !inside c

/-- The pattern starts here, between two letters that belong to no word. -/
def standsHere (prev : Option α) (l : List α) : Bool :=
  outside inside prev && old.isPrefixOf l && outside inside (l.drop old.length).head?

/-- `re.sub` of the pattern between `(?<!...)` and `(?!...)`: the letter before, how many letters of a match
are still to be passed over, and the text. -/
def sub : Option α → Nat → List α → List α
  | _, _, [] => []
  | _, skip + 1, c :: cs => sub (some c) skip cs
  | prev, 0, c :: cs =>
    if standsHere inside old prev (c :: cs) then new ++ sub (some c) (old.length - 1) cs else c :: sub (some c) 0 cs

/-- What is before and after the pattern lets it stand alone. -/
def Stands (prev : Option α) (w x : List α) : Prop :=
  outside inside (w.getLast?.or prev) = true ∧ outside inside x.head? = true

/-- The first place where the pattern stands alone, by what is before and after it. -/
structure First (prev : Option α) (l w x : List α) : Prop where
  split : l = w ++ old ++ x
  stands : Stands inside prev w x
  first : ∀ w' x', l = w' ++ old ++ x' → Stands inside prev w' x' → w.length ≤ w'.length

section Sub

variable {inside old new} {prev prev' : Option α} {l w x a : List α} {c : α} {skip : Nat}

theorem standsHere_iff : standsHere inside old prev l = true ↔ ∃ x, l = old ++ x ∧ Stands inside prev [] x := by
  simp only [standsHere, Bool.and_eq_true, List.isPrefixOf_iff_prefix, Stands, List.getLast?_nil, Option.none_or]
  constructor
  · rintro ⟨⟨hprev, x, rfl⟩, hx⟩
    rw [List.drop_left] at hx
    exact ⟨x, rfl, hprev, hx⟩
  · rintro ⟨x, rfl, hprev, hx⟩
    rw [List.drop_left]
    exact ⟨⟨hprev, List.prefix_append old x⟩, hx⟩

/-- Only whether the letter before belongs to a word matters. -/
theorem sub_prev (h : outside inside prev = outside inside prev') :
    sub inside old new prev 0 l = sub inside old new prev' 0 l := by
  cases l with
  | nil => rfl
  | cons c l =>
    have hhere : standsHere inside old prev (c :: l) = standsHere inside old prev' (c :: l) := by
      rw [standsHere, standsHere, h]
    rw [sub, sub, hhere]

theorem sub_skip (h : a ≠ []) : sub inside old new prev a.length (a ++ l) = sub inside old new a.getLast? 0 l := by
  induction a generalizing prev with
  | nil => exact absurd rfl h
  | cons c a ih =>
    cases a with
    | nil => rfl
    | cons d a => exact @ih (some c) (List.cons_ne_nil d a)

omit [DecidableEq α] in
theorem stands_cons : Stands inside (some c) w x → Stands inside prev (c :: w) x := by
  unfold Stands
  rw [List.getLast?_cons]
  cases w.getLast? <;> exact id

/-- Without a place where the pattern stands alone nothing is replaced. -/
theorem sub_of_none (h : ∀ w x, l = w ++ old ++ x → ¬ Stands inside prev w x) :
    sub inside old new prev 0 l = l := by
  induction l generalizing prev with
  | nil => rfl
  | cons c l ih =>
    have hhere : ¬ standsHere inside old prev (c :: l) = true := by
      intro hs
      obtain ⟨x, hl, hx⟩ := standsHere_iff.mp hs
      exact h [] x hl hx
    rw [sub, if_neg hhere, ih fun w x hl hx => h (c :: w) x (by rw [hl]; rfl) (stands_cons hx)]

/-- The pattern is replaced at the first place, and the replacing goes on behind it. -/
theorem sub_of_first (hold : old ≠ []) (h : First inside old prev l w x) :
    sub inside old new prev 0 l = w ++ new ++ sub inside old new old.getLast? 0 x := by
  induction w generalizing prev l with
  | nil =>
    obtain ⟨c, rest, rfl⟩ := List.exists_cons_of_ne_nil hold
    obtain rfl := h.split
    have hhere : standsHere inside (c :: rest) prev (c :: (rest ++ x)) = true := standsHere_iff.mpr ⟨x, rfl, h.stands⟩
    simp only [List.nil_append, List.cons_append, sub, hhere, if_true, List.length_cons, Nat.add_sub_cancel]
    cases rest with
    | nil => rfl
    | cons d rest =>
      rw [sub_skip (List.cons_ne_nil d rest)]
      rfl
  | cons c w ih =>
    obtain rfl := h.split
    have hhere : ¬ standsHere inside old prev (c :: (w ++ old ++ x)) = true := by
      intro hs
      obtain ⟨x', hl, hx'⟩ := standsHere_iff.mp hs
      have hle := h.first [] x' hl hx'
      simp at hle
    have hfirst : First inside old (some c) (w ++ old ++ x) w x := by
      refine ⟨rfl, ?_, fun w' x' hl hx' => ?_⟩
      · have hs := h.stands
        unfold Stands at hs ⊢
        rw [List.getLast?_cons] at hs
        cases hw : w.getLast? <;> simpa [hw] using hs
      · have hle := h.first (c :: w') x' (congrArg (c :: ·) hl) (stands_cons hx')
        simpa using hle
    change sub inside old new prev 0 (c :: (w ++ old ++ x)) = _
    rw [sub, if_neg hhere, ih hfirst]
    rfl

omit [DecidableEq α] in
variable (inside old prev l) in
/-- Either the pattern stands alone nowhere, or there is a first place. -/
theorem none_or_first : (∀ w x, l = w ++ old ++ x → ¬ Stands inside prev w x) ∨ ∃ w x, First inside old prev l w x := by
  classical
  by_cases h : ∃ n w x, l = w ++ old ++ x ∧ Stands inside prev w x ∧ w.length = n
  · obtain ⟨w, x, hl, hs, hn⟩ := Nat.find_spec h
    refine .inr ⟨w, x, hl, hs, fun w' x' hl' hs' => ?_⟩
    rw [hn]
    exact Nat.find_min' h ⟨w', x', hl', hs', rfl⟩
  · exact .inl fun w x hl hs => h ⟨_, w, x, hl, hs, rfl⟩

/-- Each replacement exchanges the lengths of the pattern and what is put for it. -/
theorem length_sub (hold : old ≠ []) : ∃ k, (sub inside old new prev 0 l).length + k * old.length =
    l.length + k * new.length ∧ ((∃ w x, l = w ++ old ++ x ∧ Stands inside prev w x) → 0 < k) := by
  induction hn : l.length using Nat.strong_induction_on generalizing l prev with
  | _ n ih =>
    rcases none_or_first inside old prev l with hnone | ⟨w, x, hfirst⟩
    · refine ⟨0, by simp [sub_of_none hnone, hn], ?_⟩
      rintro ⟨w, x, hl, hs⟩
      exact absurd hs (hnone w x hl)
    · have hlen : n = w.length + old.length + x.length := by simp [← hn, hfirst.split, Nat.add_assoc]
      have hpos := List.length_pos_iff.mpr hold
      obtain ⟨k, hk, -⟩ := @ih x.length (by omega) old.getLast? x rfl
      refine ⟨k + 1, ?_, fun _ => Nat.succ_pos k⟩
      rw [sub_of_first hold hfirst, List.length_append, List.length_append, Nat.succ_mul, Nat.succ_mul]
      omega

end Sub

/-! ## The pattern at the end alone -/

/-- The pattern is replaced where it ends the text, after a letter that belongs to no word. -/
def AtEnd (l y : List α) : Prop := l = y ++ old ∧ outside inside y.getLast? = true

/-- The rest behind the first place overlaps the pattern, and moves past the old and the new one alike. -/
structure Shifted (x : List α) : Prop where
  short : x.length < old.length
  moves : ∃ z, z ≠ [] ∧ outside inside z.getLast? = true ∧ old ++ x = z ++ old ∧ new ++ x = z ++ new

section AtEnd

variable {inside old new} {l w x y z : List α}

omit [DecidableEq α] in
theorem First.atEnd (h : First inside old none l w []) : AtEnd inside old l w :=
  ⟨by simpa using h.split, by simpa using h.stands.1⟩

omit [DecidableEq α] in
/-- A place at the end is not before the first place. -/
theorem First.length_le (h : First inside old none l w x) (hy : AtEnd inside old l y) : w.length ≤ y.length :=
  h.first y [] (by simpa using hy.1) ⟨by simpa using hy.2, rfl⟩

omit [DecidableEq α] in
theorem First.between (h : First inside old none l w x) (hy : AtEnd inside old l y) :
    ∃ z, y = w ++ z ∧ old ++ x = z ++ old := by
  have heq : w ++ (old ++ x) = y ++ old := by
    rw [← List.append_assoc, ← h.split, hy.1]
  obtain ⟨z, hz⟩ := List.prefix_of_prefix_length_le (List.prefix_append w (old ++ x))
    (heq ▸ List.prefix_append y old) (h.length_le hy)
  refine ⟨z, hz.symm, ?_⟩
  rw [← hz, List.append_assoc] at heq
  exact List.append_cancel_left heq

omit [DecidableEq α] in
theorem length_between (h : old ++ x = z ++ old) : z.length = x.length := by
  have hlen := congrArg List.length h
  simp only [List.length_append] at hlen
  omega

omit [DecidableEq α] in
theorem getLast?_append_ne_nil (hz : z ≠ []) : (w ++ z).getLast? = z.getLast? := by
  rw [List.getLast?_append]
  cases hlast : z.getLast? with
  | none => exact absurd (List.getLast?_eq_none_iff.mp hlast) hz
  | some c => rfl

/-- A text too short for the pattern stays. -/
theorem sub_short {prev : Option α} (h : x.length < old.length) : sub inside old new prev 0 x = x := by
  refine sub_of_none fun w x' hx _ => ?_
  have hlen := congrArg List.length hx
  simp only [List.length_append] at hlen
  omega

/-- With the pattern at no end, replacing changes nothing just when there is no place at all. -/
theorem sub_eq_self_iff (hold : old ≠ []) (hne : old ≠ new) :
    sub inside old new none 0 l = l ↔ ∀ w x, ¬ First inside old none l w x := by
  constructor
  · intro h w x hfirst
    rw [sub_of_first hold hfirst] at h
    obtain ⟨k, hk, -⟩ := @length_sub α _ inside old new old.getLast? x hold
    have hlen := congrArg List.length h
    have hsplit := congrArg List.length hfirst.split
    simp only [List.length_append] at hlen hsplit
    have hmul : (k + 1) * old.length = (k + 1) * new.length := by
      rw [Nat.succ_mul, Nat.succ_mul]
      omega
    have hlength : old.length = new.length := Nat.eq_of_mul_eq_mul_left (Nat.succ_pos k) hmul
    rw [hfirst.split, List.append_assoc, List.append_assoc] at h
    exact hne (List.append_inj_left (List.append_cancel_left h) hlength.symm).symm
  · intro h
    rcases none_or_first inside old none l with hnone | ⟨w, x, hfirst⟩
    · exact sub_of_none hnone
    · exact absurd hfirst (h w x)

/-- Where the rest has room for the pattern, the place at the end is behind the first one and is replaced too. -/
theorem old_eq_new_of_long (hold : old ≠ []) (hlast : outside inside old.getLast? = false)
    (hz : old ++ x = z ++ old) (hlong : old.length ≤ x.length) (hzlast : outside inside z.getLast? = true)
    (heq : new ++ sub inside old new old.getLast? 0 x = z ++ new) : old = new := by
  have hlen := length_between hz
  obtain ⟨u, rfl⟩ := List.prefix_of_prefix_length_le (List.prefix_append old x) (hz ▸ List.prefix_append z old)
    (hlen ▸ hlong)
  rw [List.append_assoc] at hz
  obtain rfl := List.append_cancel_left hz
  have hu : u ≠ [] := by
    rintro rfl
    rw [List.append_nil, hlast] at hzlast
    cases hzlast
  rw [getLast?_append_ne_nil hu] at hzlast
  have hstands : Stands inside old.getLast? u [] := by
    refine ⟨?_, rfl⟩
    rw [List.getLast?_eq_some_getLast hu] at hzlast ⊢
    exact hzlast
  obtain ⟨k, hk, hpos⟩ := @length_sub α _ inside old new old.getLast? (u ++ old) hold
  have hsame := congrArg List.length heq
  simp only [List.length_append] at hsame hk
  have hmul : k * old.length = k * new.length := by omega
  have hlength := Nat.eq_of_mul_eq_mul_left (hpos ⟨u, [], by simp, hstands⟩) hmul
  rw [List.append_assoc] at heq
  exact (List.append_inj_left heq hlength.symm).symm

/-- With the pattern at the end, that place alone is replaced just when it is the first one, or the rest behind
the first place is shifted past it. -/
theorem sub_eq_atEnd_iff (hold : old ≠ []) (hne : old ≠ new) (hlast : outside inside old.getLast? = false)
    (hy : AtEnd inside old l y) (h : First inside old none l w x) :
    sub inside old new none 0 l = y ++ new ↔ x = [] ∨ Shifted inside old new x := by
  obtain ⟨z, rfl, hz⟩ := h.between hy
  have hlen := length_between hz
  rw [sub_of_first hold h, List.append_assoc, List.append_assoc, List.append_cancel_left_eq]
  by_cases hx : x = []
  · subst hx
    obtain rfl : z = [] := List.eq_nil_of_length_eq_zero hlen
    simp [sub]
  · have hzne : z ≠ [] := fun hnil => hx (List.eq_nil_of_length_eq_zero (by rw [← hlen, hnil]; rfl))
    have hzlast : outside inside z.getLast? = true := by
      rw [← getLast?_append_ne_nil hzne]
      exact hy.2
    constructor
    · intro heq
      have hshort : x.length < old.length := by
        by_contra hlong
        rw [not_lt] at hlong
        exact absurd (old_eq_new_of_long hold hlast hz hlong hzlast heq) hne
      rw [sub_short hshort] at heq
      exact .inr ⟨hshort, z, hzne, hzlast, hz, heq⟩
    · rintro (hnil | ⟨hshort, z', -, -, hz', heq⟩)
      · exact absurd hnil hx
      · rw [sub_short hshort, heq]
        have hends : z' ++ old = z ++ old := by rw [← hz', hz]
        rw [List.append_cancel_right hends]

end AtEnd

/-! ## Runs of letters of one kind -/

variable (p : α → Bool)

/-- The first run, and each letter of another kind with the run behind it. -/
def runs : List α → List α × List (α × List α)
  | [] => ([], [])
  | c :: cs =>
    if p c = true then (c :: (runs cs).1, (runs cs).2) else ([], (c, (runs cs).1) :: (runs cs).2)

def joinRuns (r : List α × List (α × List α)) : List α := r.1 ++ r.2.flatMap fun e => e.1 :: e.2

/-- A change of every run, with what is between the runs left as it is. -/
def mapRuns (f : List α → List α) (l : List α) : List α :=
  joinRuns (f (runs p l).1, (runs p l).2.map fun e => (e.1, f e.2))

/-- All runs of a text, the empty ones too. -/
def tokens (l : List α) : List (List α) := (runs p l).1 :: (runs p l).2.map (·.2)

section Runs

variable {inside old new p} {l t : List α} {c : α} {f g : List α → List α} {prev : Option α}

omit [DecidableEq α] in
theorem joinRuns_runs : joinRuns (runs p l) = l := by
  induction l with
  | nil => rfl
  | cons c l ih =>
    unfold joinRuns at ih
    by_cases hc : p c = true
    · simp [runs, joinRuns, hc, ih]
    · simp [runs, joinRuns, hc, ih]

omit [DecidableEq α] in
theorem runs_append (h : ∀ a ∈ t, p a = true) : runs p (t ++ l) = (t ++ (runs p l).1, (runs p l).2) := by
  induction t with
  | nil => rfl
  | cons a t ih =>
    rw [List.cons_append, runs, if_pos (h a List.mem_cons_self), ih fun b hb => h b (List.mem_cons_of_mem a hb)]
    rfl

omit [DecidableEq α] in
theorem of_mem_tokens (h : t ∈ tokens p l) : ∀ a ∈ t, p a = true := by
  induction l generalizing t with
  | nil =>
    obtain rfl : t = [] := by simpa [tokens, runs] using h
    simp
  | cons c l ih =>
    unfold tokens at ih h
    by_cases hc : p c = true
    · rw [runs, if_pos hc] at h
      rcases List.mem_cons.mp h with rfl | h
      · intro a ha
        rcases List.mem_cons.mp ha with rfl | ha
        · exact hc
        · exact ih List.mem_cons_self a ha
      · exact ih (List.mem_cons_of_mem _ h)
    · rw [runs, if_neg hc] at h
      rcases List.mem_cons.mp h with rfl | h
      · simp
      · exact ih h

omit [DecidableEq α] in
theorem not_of_mem_runs {e : α × List α} (h : e ∈ (runs p l).2) : p e.1 = false := by
  induction l with
  | nil => simp [runs] at h
  | cons c l ih =>
    by_cases hc : p c = true
    · exact ih (by simpa [runs, hc] using h)
    · rw [runs, if_neg hc] at h
      rcases List.mem_cons.mp h with rfl | h
      · simpa using hc
      · exact ih h

omit [DecidableEq α] in
theorem runs_joinRuns {r : List α} {rest : List (α × List α)} (hr : ∀ a ∈ r, p a = true)
    (hrest : ∀ e ∈ rest, p e.1 = false ∧ ∀ a ∈ e.2, p a = true) : runs p (joinRuns (r, rest)) = (r, rest) := by
  induction rest generalizing r with
  | nil =>
    rw [joinRuns, List.flatMap_nil, runs_append hr]
    simp [runs]
  | cons e rest ih =>
    have he := hrest e List.mem_cons_self
    have hnext := ih he.2 fun e' he' => hrest e' (List.mem_cons_of_mem e he')
    rw [joinRuns, List.flatMap_cons, List.cons_append, runs_append hr, runs, if_neg (by simp [he.1])]
    unfold joinRuns at hnext
    rw [hnext]
    simp

omit [DecidableEq α] in
/-- Two changes of the runs agree just when they agree on each run. -/
theorem mapRuns_eq_iff (hf : ∀ t, (∀ a ∈ t, p a = true) → ∀ a ∈ f t, p a = true)
    (hg : ∀ t, (∀ a ∈ t, p a = true) → ∀ a ∈ g t, p a = true) :
    mapRuns p f l = mapRuns p g l ↔ ∀ t ∈ tokens p l, f t = g t := by
  have hfirst : ∀ a ∈ (runs p l).1, p a = true := of_mem_tokens List.mem_cons_self
  have hrest (f : List α → List α) (hf : ∀ t, (∀ a ∈ t, p a = true) → ∀ a ∈ f t, p a = true) :
      ∀ e ∈ (runs p l).2.map fun e => (e.1, f e.2), p e.1 = false ∧ ∀ a ∈ e.2, p a = true := by
    intro e he
    obtain ⟨e, he', rfl⟩ := List.mem_map.mp he
    exact ⟨(not_of_mem_runs he' : p e.1 = false), hf e.2 (of_mem_tokens (List.mem_cons_of_mem _ (List.mem_map_of_mem he')))⟩
  constructor
  · intro h t ht
    have hruns := congrArg (runs p) h
    rw [mapRuns, mapRuns, runs_joinRuns (hf _ hfirst) (hrest f hf), runs_joinRuns (hg _ hfirst) (hrest g hg),
      Prod.mk.injEq] at hruns
    rcases List.mem_cons.mp ht with rfl | ht
    · exact hruns.1
    · obtain ⟨e, he, rfl⟩ := List.mem_map.mp ht
      exact (Prod.mk.inj (List.map_inj_left.mp hruns.2 e he)).2
  · intro h
    rw [mapRuns, mapRuns, h _ List.mem_cons_self]
    have hmap : ((runs p l).2.map fun e => (e.1, f e.2)) = (runs p l).2.map fun e => (e.1, g e.2) :=
      List.map_congr_left fun e he => by
        rw [h e.2 (List.mem_cons_of_mem _ (List.mem_map_of_mem he))]
    rw [hmap]

/-- A pattern of letters of the kind starts at a run just when it starts at the text. -/
theorem standsHere_run (hp : ∀ c, p c = false → inside c = false) (hold : ∀ c ∈ old, p c = true) :
    standsHere inside old prev l = standsHere inside old prev (runs p l).1 := by
  rw [Bool.eq_iff_iff, standsHere_iff, standsHere_iff]
  constructor
  · rintro ⟨x, rfl, hprev, hx⟩
    refine ⟨(runs p x).1, by rw [runs_append hold], hprev, ?_⟩
    cases x with
    | nil => rfl
    | cons c x =>
      by_cases hc : p c = true
      · simpa [runs, hc] using hx
      · simp [runs, hc, outside]
  · rintro ⟨x, hx, hprev, hhead⟩
    refine ⟨x ++ (runs p l).2.flatMap fun e => e.1 :: e.2, ?_, hprev, ?_⟩
    · rw [← List.append_assoc, ← hx]
      exact joinRuns_runs.symm
    · cases x with
      | cons c x => exact hhead
      | nil =>
        cases hrest : (runs p l).2 with
        | nil => rfl
        | cons e rest =>
          have he : p e.1 = false := not_of_mem_runs (hrest ▸ List.mem_cons_self)
          simp [outside, hp e.1 he]

theorem sub_runs (hp : ∀ c, p c = false → inside c = false) (hold : ∀ c ∈ old, p c = true) (hne : old ≠ [])
    {skip : Nat} (hskip : skip ≤ (runs p l).1.length) : sub inside old new prev skip l =
      joinRuns (sub inside old new prev skip (runs p l).1,
        (runs p l).2.map fun e => (e.1, sub inside old new none 0 e.2)) := by
  induction l generalizing prev skip with
  | nil =>
    cases skip <;> simp [runs, joinRuns, sub]
  | cons c l ih =>
    by_cases hc : p c = true
    · have hruns : runs p (c :: l) = (c :: (runs p l).1, (runs p l).2) := by
        rw [runs, if_pos hc]
      rw [hruns] at hskip ⊢
      cases skip with
      | succ skip => exact ih (Nat.le_of_succ_le_succ hskip)
      | zero =>
        have hhere : standsHere inside old prev (c :: l) = standsHere inside old prev (c :: (runs p l).1) := by
          rw [standsHere_run hp hold, hruns]
        by_cases hs : standsHere inside old prev (c :: (runs p l).1) = true
        · obtain ⟨x, hx, -⟩ := standsHere_iff.mp hs
          have hlen : old.length - 1 ≤ (runs p l).1.length := by
            have hlength := congrArg List.length hx
            simp only [List.length_cons, List.length_append] at hlength
            omega
          rw [sub, hhere, if_pos hs, sub, if_pos hs, ih hlen]
          simp [joinRuns]
        · rw [sub, hhere, if_neg hs, sub, if_neg hs, ih (Nat.zero_le _)]
          simp [joinRuns]
    · have hruns : runs p (c :: l) = ([], (c, (runs p l).1) :: (runs p l).2) := by
        rw [runs, if_neg hc]
      rw [hruns] at hskip ⊢
      obtain rfl : skip = 0 := Nat.le_zero.mp hskip
      have hs : ¬ standsHere inside old prev (c :: l) = true := by
        rw [standsHere_run hp hold, hruns, standsHere_iff]
        rintro ⟨x, hx, -⟩
        exact hne (List.append_eq_nil_iff.mp hx.symm).1
      have hprev : outside inside (some c) = outside inside none := by
        simp [outside, hp c (by simpa using hc)]
      have hstep : sub inside old new prev 0 (c :: l) = c :: sub inside old new (some c) 0 l := by
        rw [sub, if_neg hs]
      rw [hstep, sub_prev hprev, ih (Nat.zero_le _)]
      simp [joinRuns, sub]

theorem sub_eq_mapRuns (hp : ∀ c, p c = false → inside c = false) (hold : ∀ c ∈ old, p c = true) (hne : old ≠ []) :
    sub inside old new none 0 l = mapRuns p (sub inside old new none 0) l :=
  sub_runs hp hold hne (Nat.zero_le _)

theorem of_mem_sub (hnew : ∀ c ∈ new, p c = true) (hl : ∀ c ∈ l, p c = true) {skip : Nat}
    (hc : c ∈ sub inside old new prev skip l) : p c = true := by
  induction l generalizing prev skip with
  | nil => simp [sub] at hc
  | cons a l ih =>
    have hl' : ∀ c ∈ l, p c = true := fun c hc => hl c (List.mem_cons_of_mem a hc)
    cases skip with
    | succ skip => exact ih hl' hc
    | zero =>
      rw [sub] at hc
      split at hc
      · rcases List.mem_append.mp hc with hc | hc
        · exact hnew c hc
        · exact ih hl' hc
      · rcases List.mem_cons.mp hc with rfl | hc
        · exact hl c List.mem_cons_self
        · exact ih hl' hc

end Runs

end EasyHaProxy.Replace
