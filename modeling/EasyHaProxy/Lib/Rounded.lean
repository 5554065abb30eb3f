import EasyHaProxy.Lib.Capped
import EasyHaProxy.Lib.Nearest
import Mathlib.Algebra.Order.Group.Unbundled.Abs

/-! # Charges under ceilings, in rounded arithmetic -/
namespace EasyHaProxy.Capped

variable {κ : Type} {fl : ℚ → ℚ} {c : Charge κ ℚ} {cs ds : List (Charge κ ℚ)} {u v p ceiling d T E : ℚ} {n : Nat} {k : κ}

/-- What is left under the ceiling, as it is computed. -/
def roomBy (fl : ℚ → ℚ) (ceiling used : ℚ) : ℚ := max 0 (fl (fl ceiling - used))

def Charge.grantBy (fl : ℚ → ℚ) (c : Charge κ ℚ) (used : ℚ) : ℚ := min c.points (roomBy fl c.ceiling used)

/-- A charge with every sum rounded; one without points is passed over. -/
def Ledger.chargeBy [DecidableEq κ] (fl : ℚ → ℚ) (l : Ledger κ ℚ) (c : Charge κ ℚ) : Ledger κ ℚ :=
  if c.points ≤ 0 then l
  else
    { total := fl (l.total + c.grantBy fl (l.used c.key))
      used := Function.update l.used c.key (fl (l.used c.key + c.grantBy fl (l.used c.key))) }

/-- No points are negative, and no ceiling that some fall under. -/
def Proper (cs : List (Charge κ ℚ)) : Prop := ∀ c ∈ cs, 0 ≤ c.points ∧ (0 < c.points → 0 ≤ c.ceiling)

theorem Proper.sound (h : Proper cs) : Sound cs := fun c hc => (h c hc).1

theorem proper_cons : Proper (c :: cs) ↔ (0 ≤ c.points ∧ (0 < c.points → 0 ≤ c.ceiling)) ∧ Proper cs :=
  List.forall_mem_cons

theorem Ledger.chargeBy_of_points_le_zero [DecidableEq κ] {l : Ledger κ ℚ} (hc : c.points ≤ 0) : l.chargeBy fl c = l :=
  if_pos hc

theorem Ledger.chargeBy_id [DecidableEq κ] {l : Ledger κ ℚ} (hc : 0 ≤ c.points) : l.chargeBy id c = l.charge c := by
  unfold Ledger.chargeBy
  split
  · next hle =>
    have hgrant : c.grant (l.used c.key) = 0 := by
      rw [Charge.grant, le_antisymm hle hc]
      exact min_eq_left (le_max_left _ _)
    simp [Ledger.charge, hgrant]
  · rfl

theorem charges_id [DecidableEq κ] (hcs : Sound cs) (l : Ledger κ ℚ) :
    cs.foldl (Ledger.chargeBy id) l = cs.foldl Ledger.charge l := by
  induction cs generalizing l with
  | nil => rfl
  | cons c cs ih =>
    obtain ⟨hc, hcs⟩ := sound_cons.mp hcs
    rw [List.foldl_cons, List.foldl_cons, Ledger.chargeBy_id hc]
    exact ih hcs _

variable (fl) in
theorem grantBy_nonneg (used : ℚ) (hc : 0 ≤ c.points) : 0 ≤ c.grantBy fl used := le_min hc (le_max_left _ _)

/-! ## One charge, rounded and exact -/

theorem roomBy_near (h : Rounding fl) (hc : 0 ≤ ceiling) (hc' : ceiling ≤ 256) (hu : 0 ≤ u) (hu' : u ≤ 128) :
    |roomBy fl ceiling u - max 0 (ceiling - u)| ≤ 1 / 2 ^ 44 := by
  have hceil : |fl ceiling - ceiling| ≤ 256 / 2 ^ 53 := h.error (by rwa [abs_of_nonneg hc])
  have hceil' := h.le_nat_of_le (n := 256) (le_refl _) hc (by exact_mod_cast hc')
  have hpos := h.nonneg hc
  have hleft : |fl (fl ceiling - u) - (fl ceiling - u)| ≤ 256 / 2 ^ 53 := by
    apply h.error
    rw [abs_le]
    push_cast at hceil'
    constructor <;> linarith
  have hsum : |fl (fl ceiling - u) - (ceiling - u)| ≤ 1 / 2 ^ 44 := by
    rw [abs_le] at hceil hleft ⊢
    constructor <;> linarith
  calc |roomBy fl ceiling u - max 0 (ceiling - u)|
      ≤ max |(0 : ℚ) - 0| |fl (fl ceiling - u) - (ceiling - u)| := abs_max_sub_max_le_max _ _ _ _
    _ ≤ 1 / 2 ^ 44 := max_le (by norm_num) hsum

theorem abs_min_sub_le {a b : ℚ} (p : ℚ) : |min p a - min p b| ≤ |a - b| := by
  refine (abs_min_sub_min_le_max _ _ _ _).trans (max_le ?_ (le_refl _))
  rw [sub_self, abs_zero]
  exact abs_nonneg _

variable (u v ceiling) in
/-- To what a key is filled up moves by no more than what it had. -/
theorem filled_near (hp : 0 ≤ p) :
    |(u + min p (max 0 (ceiling - u))) - (v + min p (max 0 (ceiling - v)))| ≤ |u - v| := by
  have hfill : ∀ x : ℚ, x + min p (max 0 (ceiling - x)) = max x (min (x + p) ceiling) := fun x =>
    add_grant (c := (⟨(), p, ceiling⟩ : Charge Unit ℚ)) x hp
  rw [hfill, hfill]
  refine (abs_max_sub_max_le_max _ _ _ _).trans (max_le (le_refl _) ?_)
  refine (abs_min_sub_min_le_max _ _ _ _).trans (max_le ?_ ?_)
  · rw [add_sub_add_right_eq_sub]
  · rw [sub_self, abs_zero]
    exact abs_nonneg _

theorem grant_near (h : Rounding fl) (hp : 0 ≤ c.points) (hc : 0 ≤ c.ceiling) (hu : 0 ≤ u) (hu' : u ≤ 102)
    (hv' : v ≤ 102) (hd : |u - v| ≤ d) :
    (154 ≤ c.grantBy fl u ∧ 154 ≤ c.grant v) ∨
      c.grantBy fl u ≤ 256 ∧ |c.grantBy fl u - c.grant v| ≤ d + 1 / 2 ^ 44 ∧
        |fl (u + c.grantBy fl u) - (v + c.grant v)| ≤ d + 1 / 2 ^ 43 := by
  have hg := grantBy_nonneg fl u hp
  by_cases hsmall : c.ceiling ≤ 256
  · right
    have hroom := roomBy_near h hc hsmall hu (hu'.trans (by norm_num))
    have hg' : c.grantBy fl u ≤ 256 := by
      have hceil := h.le_nat_of_le (n := 256) (le_refl _) hc (by exact_mod_cast hsmall)
      push_cast at hceil
      refine (min_le_right _ _).trans (max_le (by norm_num) ?_)
      rcases le_total (fl c.ceiling - u) 0 with hneg | hpos
      · exact (h.nonpos hneg).trans (by norm_num)
      · have hle := h.le_nat_of_le (n := 256) (le_refl _) hpos (by push_cast; linarith)
        exact_mod_cast hle
    have hmove : |c.grantBy fl u - min c.points (max 0 (c.ceiling - u))| ≤ 1 / 2 ^ 44 :=
      (abs_min_sub_le _).trans hroom
    have hfill := (filled_near u v c.ceiling hp).trans hd
    have hsum : |fl (u + c.grantBy fl u) - (u + c.grantBy fl u)| ≤ 512 / 2 ^ 53 := by
      apply h.error
      rw [abs_of_nonneg (by linarith)]
      linarith
    refine ⟨hg', ?_, ?_⟩
    · have hdiff : |c.grantBy fl u - c.grant v| ≤ |roomBy fl c.ceiling u - max 0 (c.ceiling - v)| := abs_min_sub_le _
      have hmax : |max 0 (c.ceiling - u) - max 0 (c.ceiling - v)| ≤ d := by
        refine (abs_max_sub_max_le_max _ _ _ _).trans (max_le ?_ ?_)
        · rw [sub_self, abs_zero]
          exact (abs_nonneg _).trans hd
        · rw [sub_sub_sub_cancel_left, abs_sub_comm]
          exact hd
      refine hdiff.trans ?_
      rw [abs_le] at hroom hmax ⊢
      constructor <;> linarith
    · change |fl (u + c.grantBy fl u) - (v + min c.points (max 0 (c.ceiling - v)))| ≤ d + 1 / 2 ^ 43
      rw [abs_le] at hmove hfill hsum ⊢
      constructor <;> linarith
  · -- Under a ceiling this high there is room for 154 points.
    have hroom : 154 ≤ roomBy fl c.ceiling u := by
      have hceil := h.le_of_nat_le (n := 256) (le_refl _) (by exact_mod_cast (not_le.mp hsmall).le)
      push_cast at hceil
      have hle := h.le_of_nat_le (n := 154) (by norm_num) (x := fl c.ceiling - u) (by push_cast; linarith)
      exact le_max_of_le_right (by exact_mod_cast hle)
    have hroom' : 154 ≤ max 0 (c.ceiling - v) := le_max_of_le_right (by linarith)
    by_cases hlarge : 154 ≤ c.points
    · exact Or.inl ⟨le_min hlarge hroom, le_min hlarge hroom'⟩
    · right
      have hfew := (not_le.mp hlarge).le
      have hg : c.grantBy fl u = c.points := min_eq_left (hfew.trans hroom)
      have hg' : c.grant v = c.points := min_eq_left (hfew.trans hroom')
      have hsum : |fl (u + c.points) - (u + c.points)| ≤ 512 / 2 ^ 53 := by
        apply h.error
        rw [abs_of_nonneg (by linarith)]
        linarith
      have hd' := (abs_nonneg _).trans hd
      rw [hg, hg']
      refine ⟨hfew.trans (by norm_num), ?_, ?_⟩
      · rw [sub_self, abs_zero]
        positivity
      · rw [abs_le] at hd hsum ⊢
        constructor <;> linarith

/-! ## A run of charges -/

/-- Both totals are over 100, or they differ by no more than `error`. -/
def Near (error T E : ℚ) : Prop := 101 ≤ T ∧ 101 ≤ E ∨ |T - E| ≤ error

/-- How far roundings take a total in `n` charges. -/
def drift (n : Nat) : ℚ := n ^ 2 / 2 ^ 43

/-- After `n` charges: the rounded ledger and the exact one. -/
def Close (n : Nat) (l m : Ledger κ ℚ) : Prop :=
  101 ≤ l.total ∧ 101 ≤ m.total ∨
    |l.total - m.total| ≤ drift n ∧ ∀ k, |l.used k - m.used k| ≤ n / 2 ^ 43

structure Sane (l m : Ledger κ ℚ) : Prop where
  total : 0 ≤ l.total
  used : ∀ k, 0 ≤ l.used k
  exact : ∀ k, 0 ≤ m.used k ∧ m.used k ≤ m.total

theorem Close.near {l m : Ledger κ ℚ} (h : Close n l m) : Near (drift n) l.total m.total := h.imp_right And.left

theorem drift_succ (n : Nat) : drift n + n / 2 ^ 43 + 1 / 2 ^ 43 ≤ drift (n + 1) := by
  have hn : (0 : ℚ) ≤ n := Nat.cast_nonneg n
  unfold drift
  push_cast
  rw [← add_div, ← add_div]
  gcongr
  nlinarith

theorem div_le_drift (n : Nat) : (n : ℚ) / 2 ^ 43 ≤ drift n := by
  have hn : n ≤ n ^ 2 := Nat.le_self_pow (by decide) n
  have hn : (n : ℚ) ≤ n ^ 2 := by exact_mod_cast hn
  unfold drift
  gcongr

section Run

variable [DecidableEq κ] {l m : Ledger κ ℚ}

theorem Sane.charge (h : Rounding fl) (hs : Sane l m) (hp : 0 ≤ c.points) : Sane (l.chargeBy fl c) (m.charge c) := by
  have hg := grantBy_nonneg fl (l.used c.key) hp
  have hg' := grant_nonneg (m.used c.key) hp
  refine ⟨?_, fun k => ?_, fun k => ?_⟩
  · unfold Ledger.chargeBy
    split
    · exact hs.total
    · exact h.nonneg (add_nonneg hs.total hg)
  · unfold Ledger.chargeBy
    split
    · exact hs.used k
    · by_cases hk : k = c.key
      · subst hk
        simpa using h.nonneg (add_nonneg (hs.used c.key) hg)
      · simpa [hk] using hs.used k
  · have hk := hs.exact k
    by_cases hkey : k = c.key
    · subst hkey
      simp only [Ledger.charge, Function.update_self]
      exact ⟨add_nonneg hk.1 hg', by linarith [hk.2]⟩
    · simp only [Ledger.charge, Function.update_of_ne hkey]
      exact ⟨hk.1, by linarith [hk.2]⟩

theorem over_charge (h : Rounding fl) (hp : 0 ≤ c.points) (hl : 101 ≤ l.total) (hm : 101 ≤ m.total) :
    101 ≤ (l.chargeBy fl c).total ∧ 101 ≤ (m.charge c).total := by
  have hg := grantBy_nonneg fl (l.used c.key) hp
  refine ⟨?_, hm.trans (le_add_of_nonneg_right (grant_nonneg _ hp))⟩
  unfold Ledger.chargeBy
  split
  · exact hl
  · exact_mod_cast h.le_of_nat_le (n := 101) (by norm_num) (by push_cast; linarith)

theorem Close.charge (h : Rounding fl) (hs : Sane l m) (hp : 0 ≤ c.points) (hc : 0 < c.points → 0 ≤ c.ceiling)
    (hn : drift (n + 1) ≤ 1 / 2) (hclose : Close n l m) : Close (n + 1) (l.chargeBy fl c) (m.charge c) := by
  have hstep := drift_succ n
  have hdiv := div_le_drift n
  have hpos : (0 : ℚ) ≤ n / 2 ^ 43 := by positivity
  have hsucc : ((n + 1 : Nat) : ℚ) / 2 ^ 43 = n / 2 ^ 43 + 1 / 2 ^ 43 := by push_cast; ring
  by_cases hover : 101 ≤ l.total ∧ 101 ≤ m.total
  · exact Or.inl (over_charge h hp hover.1 hover.2)
  obtain ⟨htotal, hused⟩ := hclose.resolve_left hover
  by_cases hzero : c.points ≤ 0
  · -- Nothing is charged.
    have hgrant : c.grant (m.used c.key) = 0 := by
      rw [Charge.grant, le_antisymm hzero hp]
      exact min_eq_left (le_max_left _ _)
    right
    rw [Ledger.chargeBy, if_pos hzero]
    simp only [Ledger.charge, hgrant, add_zero, Function.update_eq_self]
    refine ⟨htotal.trans (by linarith), fun k => (hused k).trans ?_⟩
    rw [hsucc]
    linarith
  · have hT := abs_le.mp htotal
    have hE : m.total ≤ 101 + 1 / 2 := by
      by_contra hbig
      exact hover ⟨by linarith, by linarith⟩
    have hT' : l.total ≤ 102 := by linarith
    have hu := abs_le.mp (hused c.key)
    have hv := (hs.exact c.key).2
    have hpc := not_le.mp hzero
    rcases grant_near h hp (hc hpc) (hs.used c.key) (by linarith) (by linarith) (hused c.key) with
      ⟨hlarge, hlarge'⟩ | ⟨hfew, hgrant, hfill⟩
    · left
      rw [Ledger.chargeBy, if_neg hzero]
      refine ⟨?_, ?_⟩
      · exact_mod_cast h.le_of_nat_le (n := 101) (by norm_num) (by push_cast; linarith [hs.total])
      · simp only [Ledger.charge]
        linarith [(hs.exact c.key).1]
    · right
      have hround : |fl (l.total + c.grantBy fl (l.used c.key)) - (l.total + c.grantBy fl (l.used c.key))| ≤
          512 / 2 ^ 53 := by
        apply h.error
        rw [abs_of_nonneg (add_nonneg hs.total (grantBy_nonneg fl _ hp))]
        linarith
      rw [Ledger.chargeBy, if_neg hzero]
      refine ⟨?_, fun k => ?_⟩
      · simp only [Ledger.charge]
        rw [abs_le] at hround hgrant ⊢
        constructor <;> linarith
      · by_cases hk : k = c.key
        · subst hk
          simp only [Ledger.charge, Function.update_self]
          rw [hsucc]
          exact hfill.trans (by linarith)
        · simp only [Ledger.charge, Function.update_of_ne hk]
          rw [hsucc]
          exact (hused k).trans (by linarith)

theorem drift_mono {k n : Nat} (h : k ≤ n) : drift k ≤ drift n := by
  unfold drift
  gcongr

/-- However the roundings go, the total of `n` charges stays by the exact one, as long as it matters. -/
theorem near_charges (h : Rounding fl) (hcs : Proper cs) (hn : drift cs.length ≤ 1 / 2) :
    Near (drift cs.length) (cs.foldl (Ledger.chargeBy fl) .empty).total (cs.foldl Ledger.charge .empty).total := by
  have key : ∀ (n : Nat) (l m : Ledger κ ℚ), Sane l m → Close n l m → drift (n + cs.length) ≤ 1 / 2 →
      Close (n + cs.length) (cs.foldl (Ledger.chargeBy fl) l) (cs.foldl Ledger.charge m) := by
    clear hn
    induction cs with
    | nil => exact fun n l m _ hclose _ => hclose
    | cons c cs ih =>
      intro n l m hs hclose hn
      obtain ⟨⟨hp, hc⟩, hcs⟩ := proper_cons.mp hcs
      rw [List.length_cons, show n + (cs.length + 1) = n + 1 + cs.length by omega] at hn ⊢
      have hfirst := hclose.charge h hs hp hc ((drift_mono (Nat.le_add_right _ _)).trans hn)
      exact ih hcs (n + 1) _ _ (hs.charge h hp) hfirst hn
  have hempty : Sane (.empty : Ledger κ ℚ) .empty :=
    ⟨le_refl 0, fun _ => le_refl 0, fun _ => ⟨le_refl 0, le_refl 0⟩⟩
  have hclose := key 0 .empty .empty hempty (Or.inr ⟨by simp [drift], fun _ => by simp⟩) (by simpa using hn)
  simpa using hclose.near

/-- A total that is a number as it is kept. -/
def Held (fl : ℚ → ℚ) (l : Ledger κ ℚ) : Prop := 0 ≤ l.total ∧ fl l.total = l.total

theorem Held.charge (h : Rounding fl) (hl : Held fl l) (hp : 0 ≤ c.points) :
    Held fl (l.chargeBy fl c) ∧ l.total ≤ (l.chargeBy fl c).total := by
  unfold Ledger.chargeBy
  split
  · exact ⟨hl, le_refl _⟩
  · have hle : fl l.total ≤ fl (l.total + c.grantBy fl (l.used c.key)) :=
      h.mono hl.1 (le_add_of_nonneg_right (grantBy_nonneg fl _ hp))
    rw [hl.2] at hle
    exact ⟨⟨hl.1.trans hle, h.again _⟩, hle⟩

theorem Held.charges (h : Rounding fl) (hl : Held fl l) (hcs : Sound cs) :
    Held fl (cs.foldl (Ledger.chargeBy fl) l) ∧ l.total ≤ (cs.foldl (Ledger.chargeBy fl) l).total := by
  induction cs generalizing l with
  | nil => exact ⟨hl, le_refl _⟩
  | cons c cs ih =>
    obtain ⟨hc, hcs⟩ := sound_cons.mp hcs
    obtain ⟨hfirst, hle⟩ := hl.charge h hc
    obtain ⟨hlast, hle'⟩ := ih hfirst hcs
    exact ⟨hlast, hle.trans hle'⟩

theorem held_charges (h : Rounding fl) (hcs : Sound cs) : Held fl (cs.foldl (Ledger.chargeBy fl) .empty) :=
  (Held.charges h ⟨le_refl 0, h.zero⟩ hcs).1

/-- What is charged later takes nothing away. -/
theorem total_le_append (h : Rounding fl) (hcs : Sound (cs ++ ds)) :
    (cs.foldl (Ledger.chargeBy fl) .empty).total ≤ ((cs ++ ds).foldl (Ledger.chargeBy fl) .empty).total := by
  have hfirst := held_charges h (fun c hc => hcs c (List.mem_append_left ds hc))
  rw [List.foldl_append]
  exact (hfirst.charges h fun c hc => hcs c (List.mem_append_right cs hc)).2

/-! ## One key under one ceiling -/

/-- After `n` charges under a ceiling: what a key has by rounded arithmetic, and by exact. -/
structure Filling (fl : ℚ → ℚ) (ceiling : ℚ) (n : Nat) (u v : ℚ) : Prop where
  nonneg : 0 ≤ u
  le : u ≤ ceiling + ceiling / 2 ^ 50
  held : fl u = u
  near : |u - v| ≤ n * (ceiling / 2 ^ 50)

theorem Filling.succ (h : Filling fl ceiling n u v) (hc : 0 ≤ ceiling) : Filling fl ceiling (n + 1) u v := by
  refine ⟨h.nonneg, h.le, h.held, h.near.trans ?_⟩
  gcongr
  exact Nat.le_succ n

omit [DecidableEq κ] in
theorem Filling.charge (h : Rounding fl) (hf : Filling fl c.ceiling n u v) (hp : 0 ≤ c.points) (hc : 0 ≤ c.ceiling) :
    Filling fl c.ceiling (n + 1) (fl (u + c.grantBy fl u)) (v + c.grant v) := by
  have hu := hf.nonneg
  have hle := hf.le
  have hg := grantBy_nonneg fl u hp
  have hceil := abs_le.mp (h.near c.ceiling)
  rw [abs_of_nonneg hc] at hceil
  have hfc := h.nonneg hc
  have hleft : |fl (fl c.ceiling - u) - (fl c.ceiling - u)| ≤ 2 * c.ceiling / 2 ^ 53 := by
    apply h.error
    rw [abs_le]
    constructor <;> linarith
  have hroom : |roomBy fl c.ceiling u - max 0 (c.ceiling - u)| ≤ 3 * c.ceiling / 2 ^ 53 := by
    refine (abs_max_sub_max_le_max _ _ _ _).trans (max_le ?_ ?_)
    · rw [sub_self, abs_zero]
      positivity
    · rw [abs_le] at hleft ⊢
      constructor <;> linarith
  have hmove : |c.grantBy fl u - min c.points (max 0 (c.ceiling - u))| ≤ 3 * c.ceiling / 2 ^ 53 :=
    (abs_min_sub_le _).trans hroom
  -- A key that is full stays as it is, another is filled no further than the rounded ceiling.
  have hbound : u + c.grantBy fl u ≤ c.ceiling + 3 * c.ceiling / 2 ^ 53 ∨ c.grantBy fl u = 0 := by
    rcases le_total (fl c.ceiling - u) 0 with hfull | hspace
    · right
      have hzero : roomBy fl c.ceiling u = 0 := max_eq_left (h.nonpos hfull)
      rw [Charge.grantBy, hzero]
      exact min_eq_right hp
    · left
      have hnear := abs_le.mp (h.near (fl c.ceiling - u))
      rw [abs_of_nonneg hspace] at hnear
      have hgle : c.grantBy fl u ≤ fl (fl c.ceiling - u) := by
        refine (min_le_right _ _).trans (le_of_eq ?_)
        exact max_eq_right (h.nonneg hspace)
      linarith
  have hsum := abs_le.mp (h.near (u + c.grantBy fl u))
  rw [abs_of_nonneg (add_nonneg hu hg)] at hsum
  refine ⟨h.nonneg (add_nonneg hu hg), ?_, h.again _, ?_⟩
  · rcases hbound with hlow | hzero
    · linarith
    · rw [hzero, add_zero, hf.held]
      exact hle
  · have hfill := (filled_near u v c.ceiling hp).trans hf.near
    have hle' : u + c.grantBy fl u ≤ 2 * c.ceiling := by
      rcases hbound with hlow | hzero
      · linarith
      · linarith
    change |fl (u + c.grantBy fl u) - (v + min c.points (max 0 (c.ceiling - v)))| ≤ _
    push_cast
    rw [abs_le] at hmove hfill ⊢
    constructor <;> linarith

/-- Where the charges of a key share their ceiling, roundings move what it gets by a small part of that. -/
theorem used_near (h : Rounding fl) (hcs : Proper cs) (hone : ∀ c ∈ cs, c.key = k → 0 < c.points → c.ceiling = ceiling)
    (hc : 0 ≤ ceiling) :
    |(cs.foldl (Ledger.chargeBy fl) .empty).used k - min ((cs.filter (·.key = k)).map (·.points)).sum ceiling| ≤
      cs.length * (ceiling / 2 ^ 50) := by
  have key : ∀ (n : Nat) (l : Ledger κ ℚ) (v : ℚ), Filling fl ceiling n (l.used k) v →
      Filling fl ceiling (n + cs.length) ((cs.foldl (Ledger.chargeBy fl) l).used k) (spent k v cs) := by
    induction cs with
    | nil => exact fun n l v hf => hf
    | cons c cs ih =>
      intro n l v hf
      obtain ⟨⟨hp, -⟩, hcs⟩ := proper_cons.mp hcs
      have hone' : ∀ d ∈ cs, d.key = k → 0 < d.points → d.ceiling = ceiling :=
        fun d hd => hone d (List.mem_cons_of_mem c hd)
      rw [List.length_cons, show n + (cs.length + 1) = n + 1 + cs.length by omega, List.foldl_cons, spent_cons]
      refine ih hcs hone' (n + 1) _ _ ?_
      by_cases hzero : c.points ≤ 0
      · rw [Ledger.chargeBy, if_pos hzero, spend_of_points_eq_zero (le_antisymm hzero hp)]
        exact hf.succ hc
      · rw [Ledger.chargeBy, if_neg hzero, spend]
        split
        · next hkey =>
          subst hkey
          obtain rfl := hone c List.mem_cons_self rfl (not_le.mp hzero)
          simpa using hf.charge h hp hc
        · next hkey =>
          simpa [Ne.symm hkey] using hf.succ hc
  have hfirst : Filling fl ceiling 0 0 0 := ⟨le_refl 0, by positivity, h.zero, by simp⟩
  have hlast := (key 0 .empty 0 hfirst).near
  have hmin : spent k 0 cs = min ((cs.filter (·.key = k)).map (·.points)).sum ceiling := by
    rw [spent_eq_min hcs.sound (fun c hc hk hp => hone c hc hk ((hcs c hc).1.lt_of_ne' hp)) hc, zero_add]
  rw [hmin] at hlast
  simpa using hlast

end Run

end EasyHaProxy.Capped
