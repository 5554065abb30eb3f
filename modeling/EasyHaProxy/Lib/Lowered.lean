import Mathlib.Data.List.Infix
import EasyHaProxy.Lib.Python

/-! What `str.lower` makes of a text, as far as its ASCII characters tell: these are lowered one by one, and
of any other character nothing comes but ASCII letters and characters beyond ASCII. -/
namespace EasyHaProxy.Python

open Text

/-- An ASCII character without case. -/
def isPlain (c : Char) : Bool := isAscii c && !isAlpha c

inductive Lowered : List Char → List Char → Prop
  | nil : Lowered [] []
  | ascii {c text out} : isAscii c = true → Lowered text out → Lowered (c :: text) (c.toLower :: out)
  | other {c image text out} : isAscii c = false → image ≠ [] →
      (∀ d ∈ image, isAscii d = true → d.isLower = true) → Lowered text out →
      Lowered (c :: text) (image ++ out)

/-- What is known of `str.lower`: the final sigma, the one case in which the neighbours of a
character matter, does not look past a slash. -/
structure LowersText (lower : List Char → List Char) : Prop where
  lowered : ∀ text, Lowered text (lower text)
  slash : ∀ a b, lower (a ++ '/' :: b) = lower a ++ '/' :: lower b

variable {c d : Char} {text out pattern image a b : List Char}

/-! ## One character -/

theorem forall_ascii {P : Char → Prop} (h : ∀ n : Fin 128, P (Char.ofNat n)) (hc : isAscii c = true) : P c := by
  have hn := h ⟨c.toNat, by simpa [isAscii] using hc⟩
  rwa [Char.ofNat_toNat] at hn

theorem toLower_of_isPlain (h : isPlain c = true) : c.toLower = c := by
  unfold Char.toLower
  rw [dif_neg]
  rintro ⟨hA, hZ⟩
  have hupper : isAlpha c = true := by
    simp only [isAlpha, Bool.or_eq_true, Bool.and_eq_true, decide_eq_true_eq]
    exact Or.inr ⟨hA, hZ⟩
  simp [isPlain, hupper] at h

theorem isPlain_of_toLower (h : isPlain c.toLower = true) : c.toLower = c := by
  by_cases hc : 'A' ≤ c ∧ c ≤ 'Z'
  · have hascii : isAscii c = true :=
      decide_eq_true (lt_of_le_of_lt (show c.toNat ≤ 90 from hc.2) (by decide))
    have hupper : 'A' ≤ c → c ≤ 'Z' → isPlain c.toLower = false :=
      forall_ascii (P := fun c => 'A' ≤ c → c ≤ 'Z' → isPlain c.toLower = false) (by decide +kernel) hascii
    rw [hupper hc.1 hc.2] at h
    cases h
  · unfold Char.toLower
    exact dif_neg hc

theorem toLower_eq_iff (hd : isPlain d = true) : d = c.toLower ↔ d = c := by
  constructor
  · rintro rfl
    exact isPlain_of_toLower hd
  · rintro rfl
    exact (toLower_of_isPlain hd).symm

theorem not_isPlain_of_image (hi : ∀ d ∈ image, isAscii d = true → d.isLower = true) (hd : d ∈ image) :
    isPlain d = false := by
  by_contra hp
  rw [Bool.not_eq_false, isPlain, Bool.and_eq_true] at hp
  have hlow : (decide (d.val ≥ 'a'.val) && decide (d.val ≤ 'z'.val)) = true := hi d hd hp.1
  rw [Bool.and_eq_true, decide_eq_true_eq, decide_eq_true_eq] at hlow
  have halpha : isAlpha d = true := by
    simp only [isAlpha, Bool.or_eq_true, Bool.and_eq_true, decide_eq_true_eq]
    exact Or.inl ⟨hlow.1, hlow.2⟩
  simp [halpha] at hp

/-! ## A text -/

theorem Lowered.eq_map (h : Lowered text out) (ht : ∀ c ∈ text, isAscii c = true) :
    out = text.map Char.toLower := by
  induction h with
  | nil => rfl
  | ascii _ _ ih => rw [List.map_cons, ih fun c hc => ht c (List.mem_cons_of_mem _ hc)]
  | other hc => simp [ht _ List.mem_cons_self] at hc

theorem Lowered.ne_nil (h : Lowered text out) (hne : text ≠ []) : out ≠ [] := by
  cases h with
  | nil => exact absurd rfl hne
  | ascii => simp
  | other _ hi => simp [hi]

theorem Lowered.map_toLower (h : Lowered text out) (ho : ∀ c ∈ out, isAscii c = true) :
    out.map Char.toLower = out := by
  induction h with
  | nil => rfl
  | @ascii c _ _ hc _ ih =>
    rw [List.map_cons, ih fun d hd => ho d (List.mem_cons_of_mem _ hd),
      forall_ascii (P := fun c => c.toLower.toLower = c.toLower) (by decide +kernel) hc]
  | @other _ image _ _ _ _ hi _ ih =>
    rw [List.map_append, ih fun d hd => ho d (List.mem_append_right _ hd)]
    congr 1
    conv_rhs => rw [← List.map_id image]
    apply List.map_congr_left
    intro d hd
    have hascii := ho d (List.mem_append_left _ hd)
    exact forall_ascii (P := fun d => d.isLower = true → d.toLower = d) (by decide +kernel) hascii
      (hi d hd hascii)

theorem Lowered.append_plain (h : Lowered text out) (ha : ∀ c ∈ a, isPlain c = true) :
    Lowered (a ++ text) (a ++ out) := by
  induction a with
  | nil => exact h
  | cons c a ih =>
    have hc := ha c List.mem_cons_self
    have hascii : isAscii c = true := by
      rw [isPlain, Bool.and_eq_true] at hc
      exact hc.1
    have hcons := Lowered.ascii hascii (ih fun d hd => ha d (List.mem_cons_of_mem _ hd))
    rwa [toLower_of_isPlain hc] at hcons

/-! ## A pattern in a text -/

theorem Lowered.prefix_iff (h : Lowered text out) (hp : ∀ c ∈ pattern, isPlain c = true) :
    pattern <+: out ↔ pattern <+: text := by
  induction h generalizing pattern with
  | nil => rfl
  | ascii _ _ ih =>
    cases pattern with
    | nil => simp
    | cons d pattern =>
      rw [List.cons_prefix_cons, List.cons_prefix_cons, ih fun c hc => hp c (List.mem_cons_of_mem _ hc),
        toLower_eq_iff (hp d List.mem_cons_self)]
  | @other c image _ _ hc hne hi _ _ =>
    cases pattern with
    | nil => simp
    | cons d pattern =>
      have hd := hp d List.mem_cons_self
      obtain ⟨e, rest, rfl⟩ := List.exists_cons_of_ne_nil hne
      rw [List.cons_append, List.cons_prefix_cons, List.cons_prefix_cons]
      refine iff_of_false ?_ ?_
      · rintro ⟨rfl, -⟩
        rw [not_isPlain_of_image hi List.mem_cons_self] at hd
        cases hd
      · rintro ⟨rfl, -⟩
        simp [isPlain, hc] at hd

/-- No pattern begins in the image of a character beyond ASCII. -/
theorem infix_image_append (hp : ∀ c ∈ pattern, isPlain c = true) (hne : pattern ≠ [])
    (hi : ∀ d ∈ image, isPlain d = false) : pattern <:+: image ++ out ↔ pattern <:+: out := by
  induction image with
  | nil => rfl
  | cons e image ih =>
    rw [List.cons_append, List.infix_cons_iff, ih fun d hd => hi d (List.mem_cons_of_mem _ hd)]
    obtain ⟨d, pattern, rfl⟩ := List.exists_cons_of_ne_nil hne
    refine or_iff_right ?_
    rw [List.cons_prefix_cons]
    rintro ⟨rfl, -⟩
    have hd := hp d List.mem_cons_self
    rw [hi d List.mem_cons_self] at hd
    cases hd

theorem Lowered.infix_iff (h : Lowered text out) (hp : ∀ c ∈ pattern, isPlain c = true) :
    pattern <:+: out ↔ pattern <:+: text := by
  by_cases hne : pattern = []
  · simp [hne]
  induction h with
  | nil => rfl
  | @ascii c text out hc h ih =>
    rw [List.infix_cons_iff, List.infix_cons_iff, ih, (Lowered.ascii hc h).prefix_iff hp]
  | @other c image text out hc _ hi _ ih =>
    rw [infix_image_append hp hne fun d hd => not_isPlain_of_image hi hd, ih,
      ← List.singleton_append (x := c), infix_image_append hp hne]
    intro d hd
    obtain rfl := List.mem_singleton.mp hd
    simp [isPlain, hc]

theorem Lowered.mem_iff (h : Lowered text out) (hc : isPlain c = true) : c ∈ out ↔ c ∈ text := by
  have hwithin : [c] <:+: out ↔ [c] <:+: text := h.infix_iff (by simpa using hc)
  rwa [List.singleton_infix_iff, List.singleton_infix_iff] at hwithin

/-! ## Where only ASCII matters -/

/-- One character of `lower`. -/
def lowerChar (c : Char) : Char := if c = '\u212a' then 'k' else c.toLower

theorem lower_eq_map (l : List Char) : lower l = l.map lowerChar := rfl

/-- Lower case changes letters into letters, and nothing else. -/
theorem lowerChar_cases (c : Char) :
    lowerChar c = c ∨ (isAlpha c = true ∨ c = '\u212a') ∧ isAlpha (lowerChar c) = true := by
  unfold lowerChar
  by_cases hk : c = '\u212a'
  · rw [if_pos hk]
    exact Or.inr ⟨Or.inr hk, by decide⟩
  · rw [if_neg hk]
    by_cases hc : 'A' ≤ c ∧ c ≤ 'Z'
    · have hascii : isAscii c = true := decide_eq_true (lt_of_le_of_lt (show c.toNat ≤ 90 from hc.2) (by decide))
      have halpha : isAlpha c = true := by simp [isAlpha, hc]
      have hlower : 'A' ≤ c → c ≤ 'Z' → isAlpha c.toLower = true :=
        forall_ascii (P := fun c => 'A' ≤ c → c ≤ 'Z' → isAlpha c.toLower = true) (by decide +kernel) hascii
      exact Or.inr ⟨Or.inl halpha, hlower hc.1 hc.2⟩
    · left
      unfold Char.toLower
      exact dif_neg hc

theorem plain_of_isAlpha (h : isAlpha c = true) :
    isSpace c = false ∧ c ≠ '-' ∧ c ≠ '+' ∧ c ≠ '_' ∧ c.isDigit = false := by
  have hascii : isAscii c = true := by
    simp only [isAlpha, Bool.or_eq_true, Bool.and_eq_true, decide_eq_true_eq] at h
    rcases h with h | h
    · exact decide_eq_true (lt_of_le_of_lt (show c.toNat ≤ 122 from h.2) (by decide))
    · exact decide_eq_true (lt_of_le_of_lt (show c.toNat ≤ 90 from h.2) (by decide))
  have hall : isAlpha c = true →
      (!isSpace c && c != '-' && c != '+' && c != '_' && !c.isDigit) = true :=
    forall_ascii (P := fun c => isAlpha c = true →
      (!isSpace c && c != '-' && c != '+' && c != '_' && !c.isDigit) = true) (by decide +kernel) hascii
  simpa [and_assoc] using hall h

theorem plain_of_letter (h : isAlpha c = true ∨ c = '\u212a') :
    isSpace c = false ∧ c ≠ '-' ∧ c ≠ '+' ∧ c ≠ '_' ∧ c.isDigit = false := by
  rcases h with h | rfl
  · exact plain_of_isAlpha h
  · decide

end EasyHaProxy.Python
