import EasyHaProxy.Lib.Python

/-! The UTF-8 octets of a text, and what `decode("utf-8", "replace")` makes of them when the first ones are
missing: every octet left of a character that was cut gives one replacement character. -/
namespace EasyHaProxy.Python

def octets (c : Char) : List Nat :=
  let n := c.toNat
  if n < 0x80 then [n]
  else if n < 0x800 then [0xc0 + n / 64, 0x80 + n % 64]
  else if n < 0x10000 then [0xe0 + n / 4096, 0x80 + n / 64 % 64, 0x80 + n % 64]
  else [0xf0 + n / 262144, 0x80 + n / 4096 % 64, 0x80 + n / 64 % 64, 0x80 + n % 64]

/-- `text.encode("utf-8")`. -/
def encodeUtf8 (text : List Char) : List Nat := text.flatMap octets

/-- How many octets a text takes. -/
def octetCount (text : List Char) : Nat := (encodeUtf8 text).length

variable {c : Char} {text rest : List Char} {more l : List Nat} {n b : Nat}

theorem toNat_valid (c : Char) : c.toNat < 0xd800 ∨ 0xdfff < c.toNat ∧ c.toNat < 0x110000 := c.valid

/-! ## Whole characters -/

theorem takeOctet_next {p : Pending} (hlow : p.low ≤ b) (hhigh : b ≤ p.high) (hneed : p.need ≠ 1) :
    takeOctet (some p) b = ([], some ⟨p.need - 1, 64 * p.code + (b - 0x80), 0x80, 0xbf⟩) := by
  rw [takeOctet]
  simp only [if_pos (And.intro hlow hhigh), if_neg hneed]

theorem takeOctet_last {p : Pending} (hlow : p.low ≤ b) (hhigh : b ≤ p.high) (hneed : p.need = 1) :
    takeOctet (some p) b = ([Char.ofNat (64 * p.code + (b - 0x80))], none) := by
  rw [takeOctet]
  simp only [if_pos (And.intro hlow hhigh), if_pos hneed]

theorem decodeUtf8_cons (pending : Option Pending) (b : Nat) (l : List Nat) :
    decodeUtf8 pending (b :: l) = (takeOctet pending b).1 ++ decodeUtf8 (takeOctet pending b).2 l := rfl

theorem decodeUtf8_octets (c : Char) (l : List Nat) : decodeUtf8 none (octets c ++ l) = c :: decodeUtf8 none l := by
  have hvalid := toNat_valid c
  have hback {m : Nat} (hm : m = c.toNat) : Char.ofNat m = c := hm ▸ Char.ofNat_toNat c
  unfold octets
  simp only
  split
  next h1 =>
    rw [List.singleton_append, decodeUtf8_cons, takeOctet, beginOctet, firstOctet, if_pos h1]
    rw [hback rfl]
    rfl
  next h1 =>
  split
  next h2 =>
    have hfirst : takeOctet none (0xc0 + c.toNat / 64) = ([], some ⟨1, c.toNat / 64, 0x80, 0xbf⟩) := by
      rw [takeOctet, beginOctet, firstOctet, if_neg (by omega), if_pos (by omega), Nat.add_sub_cancel_left]
    rw [List.cons_append, List.singleton_append, decodeUtf8_cons, hfirst, decodeUtf8_cons,
      takeOctet_last (by simp) (by simp only; omega) rfl, hback (by simp only; omega)]
    rfl
  next h2 =>
  split
  next h3 =>
    have hfirst : takeOctet none (0xe0 + c.toNat / 4096) = ([], some ⟨2, c.toNat / 4096,
        if 0xe0 + c.toNat / 4096 = 0xe0 then 0xa0 else 0x80,
        if 0xe0 + c.toNat / 4096 = 0xed then 0x9f else 0xbf⟩) := by
      rw [takeOctet, beginOctet, firstOctet, if_neg (by omega), if_neg (by omega), if_pos (by omega),
        Nat.add_sub_cancel_left]
    rw [List.cons_append, List.cons_append, List.singleton_append, decodeUtf8_cons, hfirst, decodeUtf8_cons,
      takeOctet_next (by simp only; split <;> omega) (by simp only; split <;> omega) (by simp), decodeUtf8_cons,
      takeOctet_last (by simp) (by simp only; omega) rfl, hback (by simp only; omega)]
    rfl
  next h3 =>
    have hfirst : takeOctet none (0xf0 + c.toNat / 262144) = ([], some ⟨3, c.toNat / 262144,
        if 0xf0 + c.toNat / 262144 = 0xf0 then 0x90 else 0x80,
        if 0xf0 + c.toNat / 262144 = 0xf4 then 0x8f else 0xbf⟩) := by
      rw [takeOctet, beginOctet, firstOctet, if_neg (by omega), if_neg (by omega), if_neg (by omega),
        if_pos (by omega), Nat.add_sub_cancel_left]
    rw [List.cons_append, List.cons_append, List.cons_append, List.singleton_append, decodeUtf8_cons, hfirst,
      decodeUtf8_cons, takeOctet_next (by simp only; split <;> omega) (by simp only; split <;> omega) (by simp),
      decodeUtf8_cons, takeOctet_next (by simp) (by simp only; omega) (by simp), decodeUtf8_cons,
      takeOctet_last (by simp) (by simp only; omega) rfl, hback (by simp only; omega)]
    rfl

theorem decodeUtf8_encodeUtf8 (text : List Char) : decodeUtf8 none (encodeUtf8 text) = text := by
  induction text with
  | nil => rfl
  | cons c text ih => rw [encodeUtf8, List.flatMap_cons, decodeUtf8_octets, ← encodeUtf8, ih]

/-! ## Strict decoding -/

/-- `raw.decode("utf-8")`, nothing where it raises: the text whose octets these are. -/
def decodeStrict (raw : List Nat) : Option (List Char) :=
  if encodeUtf8 (decodeUtf8 none raw) = raw then some (decodeUtf8 none raw) else none

theorem decodeStrict_eq_some : decodeStrict l = some text ↔ encodeUtf8 text = l := by
  unfold decodeStrict
  constructor
  · intro h
    split at h
    next hraw =>
      obtain rfl := Option.some.inj h
      exact hraw
    · cases h
  · rintro rfl
    rw [decodeUtf8_encodeUtf8, if_pos rfl]

theorem encodeUtf8_injective {text rest : List Char} (h : encodeUtf8 text = encodeUtf8 rest) : text = rest := by
  rw [← decodeUtf8_encodeUtf8 text, h, decodeUtf8_encodeUtf8]

theorem octets_lt (hb : b ∈ octets c) : b < 256 := by
  have hvalid := toNat_valid c
  unfold octets at hb
  simp only at hb
  split at hb
  · obtain rfl := List.mem_singleton.mp hb
    omega
  · split at hb
    · simp only [List.mem_cons, List.not_mem_nil, or_false] at hb
      omega
    · split at hb
      · simp only [List.mem_cons, List.not_mem_nil, or_false] at hb
        omega
      · simp only [List.mem_cons, List.not_mem_nil, or_false] at hb
        omega

theorem mem_octets_of_ascii {d : Char} (hc : c.toNat < 0x80) : c.toNat ∈ octets d ↔ c = d := by
  constructor
  · intro h
    unfold octets at h
    simp only at h
    split at h
    · exact Char.toNat_inj.mp (List.mem_singleton.mp h)
    · split at h
      · simp only [List.mem_cons, List.not_mem_nil, or_false] at h
        omega
      · split at h
        · simp only [List.mem_cons, List.not_mem_nil, or_false] at h
          omega
        · simp only [List.mem_cons, List.not_mem_nil, or_false] at h
          omega
  · rintro rfl
    unfold octets
    simp [hc]

theorem mem_encodeUtf8_of_ascii (hc : c.toNat < 0x80) : c.toNat ∈ encodeUtf8 text ↔ c ∈ text := by
  rw [encodeUtf8, List.mem_flatMap]
  constructor
  · rintro ⟨d, hd, h⟩
    obtain rfl := (mem_octets_of_ascii hc).mp h
    exact hd
  · exact fun h => ⟨c, h, (mem_octets_of_ascii hc).mpr rfl⟩

/-! ## What is left of a character -/

/-- Every octet of a character but the first can only go on with one. -/
theorem octets_tail (hb : b ∈ (octets c).tail) : 0x80 ≤ b ∧ b ≤ 0xbf := by
  unfold octets at hb
  simp only at hb
  split at hb
  · cases hb
  · split at hb
    · simp only [List.tail_cons, List.mem_singleton] at hb
      omega
    · split at hb
      · simp only [List.tail_cons, List.mem_cons, List.not_mem_nil, or_false] at hb
        omega
      · simp only [List.tail_cons, List.mem_cons, List.not_mem_nil, or_false] at hb
        omega

theorem length_octets (c : Char) : 1 ≤ (octets c).length ∧ (octets c).length ≤ 4 := by
  unfold octets
  simp only
  split
  · simp
  · split
    · simp
    · split <;> simp

theorem decodeUtf8_stray (h : ∀ b ∈ l, 0x80 ≤ b ∧ b ≤ 0xbf) :
    decodeUtf8 none (l ++ more) = List.replicate l.length replacement ++ decodeUtf8 none more := by
  induction l with
  | nil => rfl
  | cons b l ih =>
    obtain ⟨hlow, hhigh⟩ := h b List.mem_cons_self
    have hb : takeOctet none b = ([replacement], none) := by
      rw [takeOctet, beginOctet, firstOctet, if_neg (by omega), if_neg (by omega), if_neg (by omega),
        if_neg (by omega)]
    rw [List.cons_append, decodeUtf8_cons, hb, ih fun b hb => h b (List.mem_cons_of_mem _ hb), List.length_cons,
      List.replicate_succ, List.cons_append]
    rfl

@[simp] theorem octetCount_nil : octetCount [] = 0 := rfl

@[simp] theorem octetCount_cons (c : Char) (text : List Char) :
    octetCount (c :: text) = (octets c).length + octetCount text := by
  rw [octetCount, octetCount, encodeUtf8, encodeUtf8, List.flatMap_cons, List.length_append]

@[simp] theorem octetCount_append (text rest : List Char) :
    octetCount (text ++ rest) = octetCount text + octetCount rest := by
  rw [octetCount, octetCount, octetCount, encodeUtf8, List.flatMap_append, List.length_append]
  rfl

theorem octetCount_le_of_infix (h : rest <:+: text) : octetCount rest ≤ octetCount text := by
  obtain ⟨before, after, rfl⟩ := h
  simp only [octetCount_append]
  omega

/-- Without its first octets a text is some of its last characters, after a replacement character for
each octet left of the one before them. -/
theorem decodeUtf8_drop (text : List Char) (hn : n ≤ octetCount text) :
    ∃ stray tail, stray ≤ 3 ∧ tail <:+ text ∧ stray + octetCount tail = octetCount text - n ∧
      decodeUtf8 none ((encodeUtf8 text).drop n) = List.replicate stray replacement ++ tail := by
  induction text generalizing n with
  | nil => exact ⟨0, [], by omega, List.suffix_rfl, by simp, by simp [encodeUtf8, decodeUtf8]⟩
  | cons c text ih =>
    obtain ⟨hpos, hfour⟩ := length_octets c
    rw [octetCount_cons] at hn
    rw [encodeUtf8, List.flatMap_cons, ← encodeUtf8, List.drop_append, octetCount_cons]
    by_cases hall : (octets c).length ≤ n
    · obtain ⟨stray, tail, hs, hsuffix, hcount, hdecode⟩ :=
        ih (n := n - (octets c).length) (by omega)
      refine ⟨stray, tail, hs, hsuffix.trans (List.suffix_cons c text), by omega, ?_⟩
      rw [List.drop_eq_nil_of_le hall, List.nil_append, hdecode]
    · have hrest : n - (octets c).length = 0 := by omega
      rw [hrest, List.drop_zero]
      by_cases hzero : n = 0
      · subst hzero
        refine ⟨0, c :: text, by omega, List.suffix_rfl, by simp, ?_⟩
        rw [List.drop_zero, decodeUtf8_octets, decodeUtf8_encodeUtf8]
        rfl
      · refine ⟨(octets c).length - n, text, by omega, List.suffix_cons c text, by omega, ?_⟩
        have hstray : ∀ b ∈ (octets c).drop n, 0x80 ≤ b ∧ b ≤ 0xbf := by
          intro b hb
          obtain ⟨k, rfl⟩ := Nat.exists_eq_succ_of_ne_zero hzero
          rw [← List.drop_tail] at hb
          exact octets_tail (List.mem_of_mem_drop hb)
        rw [decodeUtf8_stray hstray, decodeUtf8_encodeUtf8, List.length_drop]

end EasyHaProxy.Python
