import EasyHaProxy.Lib.Words

/-! The digits of a number as a word, and texts of such words with one character between them. -/
namespace EasyHaProxy.Text

variable {c : Char} {l m : List Char}

theorem toList_toString (n : Nat) : (toString n).toList = Nat.toDigits 10 n := Nat.toList_repr

theorem isDigit_of_mem_toDigits {n : Nat} (h : c ∈ Nat.toDigits 10 n) : c.isDigit = true :=
  Nat.isDigit_of_mem_toDigits (by decide) (by decide) h

theorem not_mem_toDigits (hc : c.isDigit = false) (n : Nat) : c ∉ Nat.toDigits 10 n := by
  intro h
  rw [isDigit_of_mem_toDigits h] at hc
  cases hc

theorem isSpace_of_shown (h : 33 ≤ c.toNat) (h' : c.toNat ≤ 126) : isSpace c = false := by
  obtain ⟨n, hn, hc⟩ : ∃ n, n ∈ List.range' 33 94 ∧ c = Char.ofNat n :=
    ⟨c.toNat, by rw [List.mem_range'_1]; omega, by simp⟩
  rw [hc]
  exact (by decide : ∀ n ∈ List.range' 33 94, isSpace (Char.ofNat n) = false) n hn

theorem isSpace_of_isDigit (h : c.isDigit = true) : isSpace c = false := by
  have hrange : 48 ≤ c.toNat ∧ c.toNat ≤ 57 := by
    simpa [Char.isDigit, UInt32.le_iff_toNat_le] using h
  exact isSpace_of_shown (by omega) (by omega)

/-- The digits of an interpreter that knows those of ASCII only. -/
theorem digit_plain_of_isDigit (c : Char) (hc : (if c.isDigit then some (c.toNat - 48) else none).isSome = true) :
    isSpace c = false ∧ c ≠ '+' ∧ c ≠ '-' ∧ c ≠ '_' := by
  split at hc
  next hdigit =>
    refine ⟨isSpace_of_isDigit hdigit, ?_, ?_, ?_⟩ <;>
    · rintro rfl
      exact absurd hdigit (by decide)
  · cases hc

theorem isWord_toDigits (n : Nat) : IsWord (Nat.toDigits 10 n) :=
  ⟨Nat.toDigits_ne_nil, fun _ hc => isSpace_of_isDigit (isDigit_of_mem_toDigits hc)⟩

theorem IsWord.append_cons (hl : IsWord l) (hc : isSpace c = false) (hm : IsWord m) : IsWord (l ++ c :: m) where
  ne_nil := by simp
  noBlank := by
    intro d hd
    rcases List.mem_append.mp hd with hd | hd
    · exact hl.noBlank d hd
    · rcases List.mem_cons.mp hd with rfl | hd
      · exact hc
      · exact hm.noBlank d hd

/-! ## One separator -/

theorem splitOn_of_not_mem (h : c ∉ l) : l.splitOn c = [l] := by
  have : ([c].intercalate [l]).splitOn c = [l] := List.splitOn_intercalate c (by simpa using h) (by simp)
  simpa using this

theorem splitOn_pair (hl : c ∉ l) (hm : c ∉ m) : (l ++ c :: m).splitOn c = [l, m] := by
  have : ([c].intercalate [l, m]).splitOn c = [l, m] := List.splitOn_intercalate c (by simp [hl, hm]) (by simp)
  simpa using this

end EasyHaProxy.Text
