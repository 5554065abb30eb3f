import EasyHaProxy.Lib.Regex

/-! The search finds a way through an expression wherever there is one, as long as what is repeated reads a
character each time; and without anchors there is one for every text the expression reads. -/
namespace EasyHaProxy.Regex

variable {ρ : Type} {total : Nat} {e : Expr} {m m' : Match} {k : Match → Option ρ} {p : Char → Bool}

/-- Only single characters are repeated. -/
def Expr.steady : Expr → Bool
  | .empty | .chars _ | .start | .finish => true
  | .seq a b | .alt a b => a.steady && b.steady
  | .star (.chars _) => true
  | .star _ => false
  | .group _ a => a.steady

/-- No group is set. -/
def Expr.groupless : Expr → Bool
  | .empty | .chars _ | .start | .finish => true
  | .seq a b | .alt a b => a.groupless && b.groupless
  | .star a => a.groupless
  | .group _ _ => false

/-- No place is asked for. -/
def Expr.anchorless : Expr → Bool
  | .empty | .chars _ => true
  | .start | .finish => false
  | .seq a b | .alt a b => a.anchorless && b.anchorless
  | .star a | .group _ a => a.anchorless

theorem Matches.groups_eq (h : Matches total e m m') (he : e.groupless = true) : m'.groups = m.groups := by
  induction h with
  | empty | stop | start _ | finish _ | chars _ => rfl
  | seq _ _ iha ihb =>
    rw [Expr.groupless, Bool.and_eq_true] at he
    exact (ihb he.2).trans (iha he.1)
  | more _ _ iha ihb => exact (ihb he).trans (iha he)
  | left _ ih =>
    rw [Expr.groupless, Bool.and_eq_true] at he
    exact ih he.1
  | right _ ih =>
    rw [Expr.groupless, Bool.and_eq_true] at he
    exact ih he.2
  | group _ _ => cases he

theorem Matches.of_seq {a b : Expr} (h : Matches total (.seq a b) m m') :
    ∃ m₁, Matches total a m m₁ ∧ Matches total b m₁ m' := by
  cases h with
  | seq ha hb => exact ⟨_, ha, hb⟩

theorem Matches.reads_groups (h : Matches total e m m') (he : e.groupless = true) :
    ∃ text, e.Reads text ∧ m = ⟨text ++ m'.rest, m'.groups⟩ := by
  obtain ⟨text, htext, hread⟩ := h.reads
  refine ⟨text, hread, ?_⟩
  rw [← htext, h.groups_eq he]

theorem Matches.reads_group {name : String} (h : Matches total (.group name e) m m') (he : e.groupless = true) :
    ∃ text, e.Reads text ∧ m.rest = text ++ m'.rest ∧ m'.groups = (name, text) :: m.groups := by
  cases h with
  | group h =>
    obtain ⟨text, hread, rfl⟩ := h.reads_groups he
    exact ⟨text, hread, rfl, by simp⟩

/-! ## The search is complete -/

/-- As many rounds as there are characters of the kind can be taken. -/
theorem rounds_chars {groups : Groups} {rest : List Char} (hk : (k ⟨rest, groups⟩).isSome) {text : List Char}
    (htext : ∀ c ∈ text, p c = true) {n : Nat} (hn : text.length ≤ n) :
    (rounds (run total (.chars p)) n ⟨text ++ rest, groups⟩ k).isSome := by
  induction text generalizing n with
  | nil =>
    cases n with
    | zero => exact hk
    | succ n =>
      rw [rounds, Option.orElse_eq_orElse, Option.orElse_eq_or, Option.isSome_or]
      simp [hk]
  | cons c text ih =>
    cases n with
    | zero => simp at hn
    | succ n =>
      rw [rounds, Option.orElse_eq_orElse, Option.orElse_eq_or, Option.isSome_or]
      have hnext := ih (fun d hd => htext d (List.mem_cons_of_mem c hd)) (Nat.le_of_succ_le_succ hn)
      have hone (next : Match → Option ρ) : run total (.chars p) ⟨c :: (text ++ rest), groups⟩ next =
          next ⟨text ++ rest, groups⟩ := if_pos (htext c List.mem_cons_self)
      rw [List.cons_append, hone, if_pos (by simp), hnext, Bool.true_or]

/-- Where there is a way through an expression that lets the rest succeed, the search finds one. -/
theorem run_complete (he : e.steady = true) (h : Matches total e m m') (hk : (k m').isSome) :
    (run total e m k).isSome := by
  induction e generalizing m m' k with
  | empty =>
    cases h
    exact hk
  | chars p =>
    cases h with
    | chars hp => simpa [run, hp] using hk
  | seq a b iha ihb =>
    rw [Expr.steady, Bool.and_eq_true] at he
    cases h with
    | seq ha hb => exact iha he.1 ha (ihb he.2 hb hk)
  | alt a b iha ihb =>
    rw [Expr.steady, Bool.and_eq_true] at he
    rw [run, Option.orElse_eq_orElse, Option.orElse_eq_or, Option.isSome_or, Bool.or_eq_true]
    cases h with
    | left h => exact Or.inl (iha he.1 h hk)
    | right h => exact Or.inr (ihb he.2 h hk)
  | star a _ =>
    cases a with
    | chars p =>
      obtain ⟨text, htext, hread⟩ := h.reads
      have hgroups := h.groups_eq rfl
      obtain ⟨all, groups⟩ := m
      obtain ⟨rest, groups'⟩ := m'
      obtain rfl : all = text ++ rest := htext
      obtain rfl : groups' = groups := hgroups
      exact rounds_chars hk (reads_star_chars.mp hread) (by simp)
    | _ => cases he
  | group name a ih =>
    cases h with
    | group h => exact ih he h hk
  | start =>
    cases h with
    | start h => simpa [run, h] using hk
  | finish =>
    cases h with
    | finish h => simpa [run, h] using hk

theorem matches_of_reads (he : e.anchorless = true) {text : List Char} (h : e.Reads text) (rest : List Char)
    (groups : Groups) : ∃ groups', Matches total e ⟨text ++ rest, groups⟩ ⟨rest, groups'⟩ := by
  induction e generalizing text rest groups with
  | empty =>
    obtain rfl : text = [] := h
    exact ⟨groups, .empty⟩
  | chars p =>
    obtain ⟨c, rfl, hc⟩ := h
    exact ⟨groups, .chars hc⟩
  | seq a b iha ihb =>
    rw [Expr.anchorless, Bool.and_eq_true] at he
    obtain ⟨l, r, rfl, hl, hr⟩ := h
    obtain ⟨groups₁, ha⟩ := iha he.1 hl (r ++ rest) groups
    obtain ⟨groups₂, hb⟩ := ihb he.2 hr rest groups₁
    rw [List.append_assoc]
    exact ⟨groups₂, .seq ha hb⟩
  | alt a b iha ihb =>
    rw [Expr.anchorless, Bool.and_eq_true] at he
    rcases h with h | h
    · obtain ⟨groups₁, ha⟩ := iha he.1 h rest groups
      exact ⟨groups₁, .left ha⟩
    · obtain ⟨groups₁, hb⟩ := ihb he.2 h rest groups
      exact ⟨groups₁, .right hb⟩
  | star a ih =>
    obtain ⟨parts, rfl, hparts⟩ := h
    induction parts generalizing groups with
    | nil => exact ⟨groups, .stop⟩
    | cons part parts ihp =>
      obtain ⟨groups₁, hone⟩ := ih he (hparts part List.mem_cons_self) (parts.flatten ++ rest) groups
      obtain ⟨groups₂, hmore⟩ := ihp groups₁ fun other hother => hparts other (List.mem_cons_of_mem part hother)
      rw [List.flatten_cons, List.append_assoc]
      exact ⟨groups₂, .more hone hmore⟩
  | group name a ih =>
    obtain ⟨groups₁, ha⟩ := ih he h rest groups
    exact ⟨_, .group ha⟩
  | start => cases he
  | finish => cases he

end EasyHaProxy.Regex
