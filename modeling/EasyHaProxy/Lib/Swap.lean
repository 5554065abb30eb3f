import Mathlib.Logic.Function.Basic
import Mathlib.Data.List.Basic

/-! Every file is written beside its target, then all are moved in. When one cannot be moved, those moved
before it are put back from the contents read beforehand. Any of these steps can fail. -/
namespace EasyHaProxy.Swap

variable {κ β : Type} [DecidableEq κ]

/-- The targets, the files staged beside them and those written on the way back. -/
@[ext]
structure Dir (κ β : Type) where
  target : κ → Option β
  temp : κ → Option β
  back : κ → Option β

/-- A write that fails leaves nothing new behind, or part of the content. -/
inductive Written (β : Type)
  | done
  | fails (left : Option β)
  deriving DecidableEq

/-- What becomes of every step, for every file. -/
structure Faults (κ β : Type) where
  stage : κ → Written β
  read : κ → Bool
  move : κ → Bool
  unlink : κ → Bool
  unlinkTarget : κ → Bool
  back : κ → Written β
  moveBack : κ → Bool

def removeTemps (f : Faults κ β) (keys : List κ) (d : Dir κ β) : Dir κ β :=
  { d with temp := fun k => if k ∈ keys ∧ f.unlink k = true then none else d.temp k }

/-- Write every file beside its target; a failure removes the ones written before. -/
def stageAll (f : Faults κ β) (content : κ → β) : List κ → List κ → Dir κ β → Bool × Dir κ β
  | [], _, d => (true, d)
  | k :: rest, staged, d =>
    match f.stage k with
    | .done => stageAll f content rest (staged ++ [k])
        { d with temp := Function.update d.temp k (some (content k)) }
    | .fails left =>
      (false, removeTemps f staged { d with temp := Function.update d.temp k (left.or (d.temp k)) })

/-- Put the previous contents back; the first failure ends it. -/
def putBackAll (f : Faults κ β) (previous : κ → Option β) : List κ → Dir κ β → Bool × Dir κ β
  | [], d => (true, d)
  | k :: rest, d =>
    match previous k with
    | none => putBackAll f previous rest
        (if f.unlinkTarget k then { d with target := Function.update d.target k none } else d)
    | some raw =>
      match f.back k with
      | .fails left => (false, { d with back := Function.update d.back k (left.or (d.back k)) })
      | .done =>
        if f.moveBack k then
          putBackAll f previous rest
            { d with
              target := Function.update d.target k (some raw)
              back := Function.update d.back k none }
        else (false, { d with back := Function.update d.back k (some raw) })

/-- Move the staged files in; a failure puts back those moved and removes the staged ones. -/
def moveAll (f : Faults κ β) (previous : κ → Option β) (staged : List κ) :
    List κ → List κ → Dir κ β → Bool × Dir κ β
  | [], _, d => (true, d)
  | k :: rest, moved, d =>
    if f.move k then
      moveAll f previous staged rest (moved ++ [k])
        { d with
          target := Function.update d.target k (d.temp k)
          temp := Function.update d.temp k none }
    else
      match putBackAll f previous moved d with
      | (true, d) => (false, removeTemps f staged d)
      | (false, d) => (false, d)

/-- Whether all files were replaced, and what is on disk then. -/
def replaceAll (f : Faults κ β) (content : κ → β) (keys : List κ) (d : Dir κ β) : Bool × Dir κ β :=
  match stageAll f content keys [] d with
  | (false, d) => (false, d)
  | (true, d) => if keys.all f.read then moveAll f d.target keys keys [] d else (false, d)

/-- Every step of the way in takes place. -/
structure Faults.Succeeds (f : Faults κ β) (keys : List κ) : Prop where
  stage : ∀ k ∈ keys, f.stage k = .done
  read : ∀ k ∈ keys, f.read k = true
  move : ∀ k ∈ keys, f.move k = true

/-- The first failure is one that can be undone, and no step of undoing it fails. -/
structure Faults.Tidy (f : Faults κ β) (keys : List κ) : Prop where
  /-- A write that fails leaves nothing, and what was staged before is removed. -/
  stage : ∀ pre k post left, keys = pre ++ k :: post → (∀ m ∈ pre, f.stage m = .done) →
    f.stage k = .fails left → left = none ∧ ∀ m ∈ pre, f.unlink m = true
  /-- The previous contents can be read. -/
  read : (∀ m ∈ keys, f.stage m = .done) → ∀ m ∈ keys, f.read m = true
  /-- The files moved before the one that fails are put back, the others are removed. -/
  move : (∀ m ∈ keys, f.stage m = .done) → (∀ m ∈ keys, f.read m = true) →
    ∀ pre k post, keys = pre ++ k :: post → (∀ m ∈ pre, f.move m = true) → f.move k = false →
      (∀ m ∈ pre, f.back m = .done ∧ f.moveBack m = true) ∧ ∀ m ∈ k :: post, f.unlink m = true

variable {f : Faults κ β} {content : κ → β} {keys pre post staged moved : List κ} {d : Dir κ β} {k : κ}
  {previous : κ → Option β}

/-- Either all elements are as wanted, or one is the first that is not. -/
theorem forall_or_first {α : Type} (p : α → Prop) (l : List α) :
    (∀ a ∈ l, p a) ∨ ∃ pre a post, l = pre ++ a :: post ∧ (∀ b ∈ pre, p b) ∧ ¬ p a := by
  induction l with
  | nil => exact Or.inl fun a ha => absurd ha List.not_mem_nil
  | cons a l ih =>
    by_cases ha : p a
    · rcases ih with hall | ⟨pre, b, post, rfl, hpre, hb⟩
      · exact Or.inl (List.forall_mem_cons.mpr ⟨ha, hall⟩)
      · exact Or.inr ⟨a :: pre, b, post, rfl, List.forall_mem_cons.mpr ⟨ha, hpre⟩, hb⟩
    · exact Or.inr ⟨[], a, l, rfl, fun b hb => absurd hb List.not_mem_nil, ha⟩

/-! ## Staging -/

def Dir.stage (d : Dir κ β) (content : κ → β) (keys : List κ) : Dir κ β :=
  { d with temp := fun k => if k ∈ keys then some (content k) else d.temp k }

theorem stage_cons (content : κ → β) (d : Dir κ β) (k : κ) (keys : List κ) :
    Dir.stage { d with temp := Function.update d.temp k (some (content k)) } content keys =
      d.stage content (k :: keys) := by
  ext m : 2
  · rfl
  · simp only [Dir.stage, List.mem_cons]
    by_cases hk : m = k
    · subst hk
      simp
    · simp [hk]
  · rfl

theorem stageAll_done (h : ∀ k ∈ keys, f.stage k = .done) :
    stageAll f content keys staged d = (true, d.stage content keys) := by
  induction keys generalizing staged d with
  | nil => simp [stageAll, Dir.stage]
  | cons k keys ih =>
    obtain ⟨hk, hrest⟩ := List.forall_mem_cons.mp h
    rw [stageAll, hk]
    dsimp only
    rw [ih hrest, stage_cons]

theorem stageAll_fails {left : Option β} (hpre : ∀ m ∈ pre, f.stage m = .done)
    (hk : f.stage k = .fails left) :
    stageAll f content (pre ++ k :: post) staged d =
      (false, removeTemps f (staged ++ pre) { d.stage content pre with
        temp := Function.update (d.stage content pre).temp k (left.or ((d.stage content pre).temp k)) }) := by
  induction pre generalizing staged d with
  | nil => simp [stageAll, hk, Dir.stage]
  | cons m pre ih =>
    obtain ⟨hm, hrest⟩ := List.forall_mem_cons.mp hpre
    rw [List.cons_append, stageAll, hm]
    dsimp only
    rw [ih hrest, stage_cons, List.append_assoc]
    rfl

/-! ## Moving in and putting back -/

def Dir.moveIn (d : Dir κ β) (keys : List κ) : Dir κ β :=
  { d with
    target := fun k => if k ∈ keys then d.temp k else d.target k
    temp := fun k => if k ∈ keys then none else d.temp k }

theorem moveIn_cons (d : Dir κ β) (hk : k ∉ keys) :
    Dir.moveIn
        { d with
          target := Function.update d.target k (d.temp k)
          temp := Function.update d.temp k none } keys =
      d.moveIn (k :: keys) := by
  ext m : 2
  · simp only [Dir.moveIn, List.mem_cons]
    by_cases hm : m = k
    · subst hm
      simp [hk]
    · simp [hm]
  · simp only [Dir.moveIn, List.mem_cons]
    by_cases hm : m = k
    · subst hm
      simp
    · simp [hm]
  · rfl

theorem moveAll_done (hn : keys.Nodup) (h : ∀ k ∈ keys, f.move k = true) :
    moveAll f previous staged keys moved d = (true, d.moveIn keys) := by
  induction keys generalizing moved d with
  | nil => simp [moveAll, Dir.moveIn]
  | cons k keys ih =>
    obtain ⟨hk, hrest⟩ := List.forall_mem_cons.mp h
    obtain ⟨hnot, hn⟩ := List.nodup_cons.mp hn
    rw [moveAll, if_pos hk, ih hn hrest, moveIn_cons d hnot]

theorem moveAll_fails (hn : (pre ++ k :: post).Nodup) (hpre : ∀ m ∈ pre, f.move m = true)
    (hk : f.move k = false) :
    moveAll f previous staged (pre ++ k :: post) moved d =
      match putBackAll f previous (moved ++ pre) (d.moveIn pre) with
      | (true, d) => (false, removeTemps f staged d)
      | (false, d) => (false, d) := by
  induction pre generalizing moved d with
  | nil => simp [moveAll, hk, Dir.moveIn]
  | cons m pre ih =>
    obtain ⟨hm, hrest⟩ := List.forall_mem_cons.mp hpre
    rw [List.cons_append] at hn ⊢
    obtain ⟨hnot, hn⟩ := List.nodup_cons.mp hn
    have hnot' : m ∉ pre := fun h => hnot (List.mem_append_left _ h)
    rw [moveAll, if_pos hm, ih hn hrest, moveIn_cons d hnot', List.append_assoc]
    rfl

def Dir.putBack (d : Dir κ β) (previous : κ → Option β) (keys : List κ) : Dir κ β :=
  { d with
    target := fun k => if k ∈ keys then previous k else d.target k
    back := fun k => if k ∈ keys then none else d.back k }

theorem putBack_cons (d : Dir κ β) {raw : β} (hp : previous k = some raw) (keys : List κ) :
    Dir.putBack
        { d with
          target := Function.update d.target k (some raw)
          back := Function.update d.back k none } previous keys =
      d.putBack previous (k :: keys) := by
  ext m : 2
  · simp only [Dir.putBack, List.mem_cons]
    by_cases hm : m = k
    · subst hm
      simp [hp]
    · simp [hm]
  · rfl
  · simp only [Dir.putBack, List.mem_cons]
    by_cases hm : m = k
    · subst hm
      simp
    · simp [hm]

theorem putBackAll_done (hp : ∀ m ∈ keys, previous m ≠ none)
    (h : ∀ m ∈ keys, f.back m = .done ∧ f.moveBack m = true) :
    putBackAll f previous keys d = (true, d.putBack previous keys) := by
  induction keys generalizing d with
  | nil => simp [putBackAll, Dir.putBack]
  | cons k keys ih =>
    obtain ⟨hpk, hprest⟩ := List.forall_mem_cons.mp hp
    obtain ⟨⟨hb, hm⟩, hrest⟩ := List.forall_mem_cons.mp h
    obtain ⟨raw, hraw⟩ := Option.ne_none_iff_exists'.mp hpk
    rw [putBackAll, hraw]
    dsimp only
    rw [hb]
    dsimp only
    rw [if_pos hm, ih hprest hrest, putBack_cons d hraw]

/-- Putting back touches no staged file, and it ends well only when every file is put back. -/
theorem putBackAll_temp (f : Faults κ β) (previous : κ → Option β) (keys : List κ) (d : Dir κ β) :
    (putBackAll f previous keys d).2.temp = d.temp := by
  induction keys generalizing d with
  | nil => rfl
  | cons k keys ih =>
    rw [putBackAll]
    split
    · rw [ih]
      split <;> rfl
    · split
      · rfl
      · split
        · rw [ih]
        · rfl

theorem back_of_putBackAll (hp : ∀ m ∈ keys, previous m ≠ none)
    (h : (putBackAll f previous keys d).1 = true) :
    ∀ m ∈ keys, f.back m = .done ∧ f.moveBack m = true := by
  induction keys generalizing d with
  | nil => exact fun m hm => absurd hm List.not_mem_nil
  | cons k keys ih =>
    obtain ⟨hpk, hprest⟩ := List.forall_mem_cons.mp hp
    obtain ⟨raw, hraw⟩ := Option.ne_none_iff_exists'.mp hpk
    rw [putBackAll, hraw] at h
    dsimp only at h
    split at h
    · cases h
    · rename_i hb
      split at h
      · rename_i hm
        exact List.forall_mem_cons.mpr ⟨⟨hb, hm⟩, ih hprest h⟩
      · cases h

/-! ## The whole replacement -/

/-- Nothing is left over from a replacement before. -/
structure Dir.Fresh (d : Dir κ β) : Prop where
  temp : ∀ k, d.temp k = none
  back : ∀ k, d.back k = none

theorem replaceAll_done (hn : keys.Nodup) (h : f.Succeeds keys) :
    replaceAll f content keys d = (true, (d.stage content keys).moveIn keys) := by
  rw [replaceAll, stageAll_done h.stage]
  dsimp only
  rw [if_pos (List.all_eq_true.mpr h.read), moveAll_done hn h.move]

variable (content keys) in
theorem replaced (hd : d.Fresh) :
    ((d.stage content keys).moveIn keys).Fresh ∧
      ∀ k ∈ keys, ((d.stage content keys).moveIn keys).target k = some (content k) := by
  refine ⟨⟨fun k => ?_, hd.back⟩, fun k hk => ?_⟩
  · simp only [Dir.moveIn, Dir.stage]
    split
    · rfl
    · exact hd.temp k
  · simp [Dir.moveIn, Dir.stage, hk]

theorem replaceAll_stage {left : Option β} (hkeys : keys = pre ++ k :: post)
    (hpre : ∀ m ∈ pre, f.stage m = .done) (hk : f.stage k = .fails left) :
    replaceAll f content keys d =
      (false, removeTemps f pre { d.stage content pre with
        temp := Function.update (d.stage content pre).temp k (left.or ((d.stage content pre).temp k)) }) := by
  rw [replaceAll, hkeys, stageAll_fails hpre hk]
  rfl

theorem replaceAll_read (hstage : ∀ m ∈ keys, f.stage m = .done) (hread : ¬ ∀ m ∈ keys, f.read m = true) :
    replaceAll f content keys d = (false, d.stage content keys) := by
  rw [replaceAll, stageAll_done hstage]
  dsimp only
  rw [if_neg (by simpa [List.all_eq_true] using hread)]

/-- What a failed move leaves. -/
theorem replaceAll_move (hn : keys.Nodup) (hstage : ∀ m ∈ keys, f.stage m = .done)
    (hread : ∀ m ∈ keys, f.read m = true) (hkeys : keys = pre ++ k :: post)
    (hpre : ∀ m ∈ pre, f.move m = true) (hk : f.move k = false) :
    replaceAll f content keys d =
      match putBackAll f d.target pre ((d.stage content keys).moveIn pre) with
      | (true, d) => (false, removeTemps f keys d)
      | (false, d) => (false, d) := by
  rw [replaceAll, stageAll_done hstage]
  dsimp only
  rw [if_pos (List.all_eq_true.mpr hread)]
  have hmove := @moveAll_fails κ β _ f pre post keys [] (d.stage content keys) k d.target
    (hkeys ▸ hn) hpre hk
  rw [← hkeys, List.nil_append] at hmove
  exact hmove

omit [DecidableEq κ] in
theorem not_mem_pre {m : κ} (hn : keys.Nodup) (hkeys : keys = pre ++ k :: post) (hm : m ∈ k :: post) :
    m ∉ pre := by
  intro hmem
  rw [hkeys] at hn
  exact (List.nodup_append.mp hn).2.2 m hmem m hm rfl

omit [DecidableEq κ] in
/-- How a replacement that fails gets there. -/
theorem failure_cases (h : ¬ f.Succeeds keys) :
    (∃ pre k post left, keys = pre ++ k :: post ∧ (∀ m ∈ pre, f.stage m = .done) ∧
        f.stage k = .fails left) ∨
      ((∀ m ∈ keys, f.stage m = .done) ∧ ¬ ∀ m ∈ keys, f.read m = true) ∨
      ((∀ m ∈ keys, f.stage m = .done) ∧ (∀ m ∈ keys, f.read m = true) ∧
        ∃ pre k post, keys = pre ++ k :: post ∧ (∀ m ∈ pre, f.move m = true) ∧ f.move k = false) := by
  rcases forall_or_first (fun k => f.stage k = .done) keys with hstage | ⟨pre, k, post, hkeys, hpre, hk⟩
  · by_cases hread : ∀ m ∈ keys, f.read m = true
    · rcases forall_or_first (fun k => f.move k = true) keys with hmove | ⟨pre, k, post, hkeys, hpre, hk⟩
      · exact absurd ⟨hstage, hread, hmove⟩ h
      · exact Or.inr (Or.inr ⟨hstage, hread, pre, k, post, hkeys, hpre, Bool.eq_false_iff.mpr hk⟩)
    · exact Or.inr (Or.inl ⟨hstage, hread⟩)
  · cases hw : f.stage k with
    | done => exact absurd hw hk
    | fails left => exact Or.inl ⟨pre, k, post, left, hkeys, hpre, hw⟩

variable (content d) in
theorem replaceAll_fails (hn : keys.Nodup) (h : ¬ f.Succeeds keys) :
    (replaceAll f content keys d).1 = false := by
  rcases failure_cases h with ⟨pre, k, post, left, hkeys, hpre, hk⟩ | ⟨hstage, hread⟩ |
    ⟨hstage, hread, pre, k, post, hkeys, hpre, hk⟩
  · rw [replaceAll_stage hkeys hpre hk]
  · rw [replaceAll_read hstage hread]
  · rw [replaceAll_move hn hstage hread hkeys hpre hk]
    split <;> rfl

/-- A failure that is undone without another one leaves everything as it was. -/
theorem replaceAll_tidy (hn : keys.Nodup) (hd : d.Fresh) (hex : ∀ k ∈ keys, d.target k ≠ none)
    (h : ¬ f.Succeeds keys) (ht : f.Tidy keys) : replaceAll f content keys d = (false, d) := by
  rcases failure_cases h with ⟨pre, k, post, left, hkeys, hpre, hk⟩ | ⟨hstage, hread⟩ |
    ⟨hstage, hread, pre, k, post, hkeys, hpre, hk⟩
  · obtain ⟨rfl, hunlink⟩ := ht.stage pre k post left hkeys hpre hk
    rw [replaceAll_stage hkeys hpre hk]
    congr 1
    ext m : 2
    · rfl
    · have hnot : k ∉ pre := not_mem_pre hn hkeys List.mem_cons_self
      simp only [removeTemps, Dir.stage, Option.none_or, Function.update_eq_self]
      by_cases hm : m ∈ pre
      · simp [hm, hunlink m hm, hd.temp m]
      · simp [hm]
    · rfl
  · exact absurd (ht.read hstage) hread
  · obtain ⟨hback, hunlink⟩ := ht.move hstage hread pre k post hkeys hpre hk
    have hprev : ∀ m ∈ pre, d.target m ≠ none := fun m hm => hex m (by simp [hkeys, hm])
    rw [replaceAll_move hn hstage hread hkeys hpre hk, putBackAll_done hprev hback]
    dsimp only
    congr 1
    ext m : 2
    · simp only [removeTemps, Dir.putBack, Dir.moveIn, Dir.stage]
      by_cases hm : m ∈ pre <;> simp [hm]
    · simp only [removeTemps, Dir.putBack, Dir.moveIn, Dir.stage]
      by_cases hm : m ∈ pre
      · simp [hm, hd.temp m]
      · by_cases hrest : m ∈ keys
        · have hu : f.unlink m = true := hunlink m (by
            rw [hkeys] at hrest
            exact (List.mem_append.mp hrest).resolve_left hm)
          simp [hrest, hu, hd.temp m]
        · simp [hm, hrest]
    · simp only [removeTemps, Dir.putBack, Dir.moveIn, Dir.stage]
      by_cases hm : m ∈ pre
      · simp [hm, hd.back m]
      · simp [hm]

variable (content) in
/-- Where a failure leaves no staged file, undoing it met no other. -/
theorem tidy_of_no_temp (hn : keys.Nodup) (hd : d.Fresh) (hex : ∀ k ∈ keys, d.target k ≠ none)
    (h : ∀ k, (replaceAll f content keys d).2.temp k = none) : f.Tidy keys := by
  refine ⟨?_, ?_, ?_⟩
  · intro pre k post left hkeys hpre hk
    have hnot : k ∉ pre := not_mem_pre hn hkeys List.mem_cons_self
    rw [replaceAll_stage hkeys hpre hk] at h
    refine ⟨?_, fun m hm => ?_⟩
    · have htemp := h k
      simpa [removeTemps, Dir.stage, hnot, hd.temp k] using htemp
    · have htemp := h m
      have hne : m ≠ k := fun he => hnot (he ▸ hm)
      simpa [removeTemps, Dir.stage, hm, hne] using htemp
  · intro hstage m hm
    by_contra hread
    rw [replaceAll_read hstage fun hall => hread (hall m hm)] at h
    have htemp := h m
    simp [Dir.stage, hm] at htemp
  · intro hstage hread pre k post hkeys hpre hk
    have hkmem : k ∈ keys := by simp [hkeys]
    have hnot : k ∉ pre := not_mem_pre hn hkeys List.mem_cons_self
    have hprev : ∀ m ∈ pre, d.target m ≠ none := fun m hm => hex m (by simp [hkeys, hm])
    rw [replaceAll_move hn hstage hread hkeys hpre hk] at h
    have htemps := putBackAll_temp f d.target pre ((d.stage content keys).moveIn pre)
    cases hput : putBackAll f d.target pre ((d.stage content keys).moveIn pre) with
    | mk ok e =>
      rw [hput] at h htemps
      cases ok with
      | false =>
        -- the file that could not be moved is still staged
        have htemp := h k
        dsimp only at htemp htemps
        rw [htemps] at htemp
        simp [Dir.moveIn, Dir.stage, hnot, hkmem] at htemp
      | true =>
        refine ⟨back_of_putBackAll hprev (by rw [hput]), fun m hm => ?_⟩
        have htemp := h m
        have hmkeys : m ∈ keys := by
          rw [hkeys]
          exact List.mem_append_right _ hm
        have hmpre : m ∉ pre := not_mem_pre hn hkeys hm
        dsimp only at htemp htemps
        simpa [removeTemps, htemps, Dir.moveIn, Dir.stage, hmkeys, hmpre] using htemp

end EasyHaProxy.Swap
