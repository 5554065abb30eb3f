import Mathlib.Data.List.SplitBy
import EasyHaProxy.Lib.Lowered
import EasyHaProxy.Guardd.LineParser

/-! What a target has to look like to come through `normalize_path` as it is, and what every path that comes
out of it looks like: no empty segment and no dot segment stands between two slashes. -/
namespace EasyHaProxy.Guardd

open Text Python

variable {text rest s t : List Char} {segments : List (List Char)} {c : Char}

/-! ## Segments between slashes -/

/-- The segments a canonical path has none of. -/
def skipped : List (List Char) := [[], ['.'], ['.', '.']]

/-- A segment with a slash on either side. -/
def between (s : List Char) : List Char := '/' :: s ++ ['/']

def Resolved (text : List Char) : Prop := ∀ s ∈ skipped, ¬ between s <:+: text

instance : Decidable (Resolved text) := inferInstanceAs (Decidable (∀ s ∈ skipped, ¬ between s <:+: text))

/-- Segments, each behind its slash. -/
def joined (segments : List (List Char)) : List Char := segments.flatMap ('/' :: ·)

theorem Resolved.of_infix (h : Resolved text) (ht : t <:+: text) : Resolved t :=
  fun s hs hb => h s hs (hb.trans ht)

theorem slash_not_mem_skipped (h : s ∈ skipped) : '/' ∉ s := by
  revert s
  decide

@[simp] theorem joined_nil : joined [] = [] := rfl

@[simp] theorem joined_cons : joined (s :: segments) = '/' :: s ++ joined segments := rfl

theorem joined_append (a b : List (List Char)) : joined (a ++ b) = joined a ++ joined b := List.flatMap_append

theorem joinSegments_eq (h : segments ≠ []) : joinSegments segments = joined segments := by
  unfold joinSegments
  induction segments with
  | nil => exact absurd rfl h
  | cons s segments ih =>
    cases segments with
    | nil => simp
    | cons t segments =>
      have hrest := ih (by simp)
      rw [List.intercalate_cons_cons, joined_cons, ← hrest]
      simp

theorem joined_splitOn (text : List Char) : joined (text.splitOn '/') = '/' :: text := by
  rw [← joinSegments_eq (List.splitOn_ne_nil '/' text), joinSegments, List.intercalate_splitOn]

/-- Text in front of the first slash. -/
theorem takeWhile_slash (h : '/' ∉ s) : (s ++ '/' :: rest).takeWhile (· != '/') = s := by
  rw [List.takeWhile_append_of_pos]
  · simp
  · intro c hc
    simpa using fun he : c = '/' => h (he ▸ hc)

/-- A pattern that begins with a slash begins behind a text that has none. -/
theorem between_infix_append (h : '/' ∉ t) : between s <:+: t ++ rest ↔ between s <:+: rest := by
  induction t with
  | nil => rfl
  | cons c t ih =>
    rw [List.mem_cons, not_or] at h
    rw [List.cons_append, List.infix_cons_iff, ih h.2]
    refine or_iff_right ?_
    unfold between
    rw [List.cons_append, List.cons_prefix_cons]
    exact fun hc => h.1 hc.1

/-- A segment between two slashes is one of those joined, or stands further on. -/
theorem mem_of_between_infix (hs : '/' ∉ s) (hsegments : ∀ t ∈ segments, '/' ∉ t)
    (h : between s <:+: joined segments ++ '/' :: rest) : s ∈ segments ∨ between s <:+: '/' :: rest := by
  induction segments with
  | nil => exact Or.inr h
  | cons t segments ih =>
    have ht := hsegments t List.mem_cons_self
    rw [joined_cons, List.cons_append, List.cons_append, List.append_assoc, List.infix_cons_iff,
      between_infix_append ht] at h
    obtain hleading | hwithin := h
    · obtain ⟨after, hafter⟩ : ∃ after, joined segments ++ '/' :: rest = '/' :: after := by
        cases segments with
        | nil => exact ⟨rest, rfl⟩
        | cons u segments => exact ⟨_, rfl⟩
      obtain ⟨tail, htail⟩ := hleading
      rw [hafter, between, List.cons_append, List.cons_append, List.cons.injEq, List.append_assoc] at htail
      have hst := congrArg (List.takeWhile (· != '/')) htail.2
      rw [List.singleton_append, takeWhile_slash hs, takeWhile_slash ht] at hst
      exact Or.inl (hst ▸ List.mem_cons_self)
    · exact (ih (fun u hu => hsegments u (List.mem_cons_of_mem _ hu)) hwithin).imp_left
        (List.mem_cons_of_mem _)

theorem between_infix_of_mem (h : s ∈ segments) : between s <:+: joined segments ++ ['/'] := by
  obtain ⟨a, b, rfl⟩ := List.append_of_mem h
  obtain ⟨after, hafter⟩ : ∃ after, joined b ++ ['/'] = '/' :: after := by
    cases b with
    | nil => exact ⟨[], rfl⟩
    | cons u b => exact ⟨_, rfl⟩
  refine ⟨joined a, after, ?_⟩
  rw [joined_append, joined_cons, List.append_assoc _ _ ['/'], List.append_assoc _ _ ['/'], hafter]
  simp [between]

theorem not_between_infix_slash : ¬ between s <:+: ['/'] := by
  intro h
  have hlen := h.length_le
  simp [between] at hlen

theorem resolved_joined (h : ∀ t ∈ segments, '/' ∉ t ∧ t ∉ skipped) : Resolved (joined segments ++ ['/']) := by
  intro s hs hb
  obtain hmem | hslash := mem_of_between_infix (slash_not_mem_skipped hs) (fun t ht => (h t ht).1) hb
  · exact (h s hmem).2 hs
  · exact not_between_infix_slash hslash

/-! ## What comes out -/

theorem collapseSlashes_sublist (text : List Char) : (collapseSlashes text).Sublist text := by
  induction text with
  | nil => exact List.Sublist.slnil
  | cons c text ih =>
    unfold collapseSlashes at ih ⊢
    rw [List.foldr_cons]
    split
    · exact ih.cons c
    · exact ih.cons_cons c

theorem of_mem_foldl_pushSegment {segments rest : List (List Char)}
    (h : s ∈ rest.foldl pushSegment segments) : s ∈ segments ∨ s ∈ rest ∧ s ∉ skipped := by
  induction rest generalizing segments with
  | nil => exact Or.inl h
  | cons t rest ih =>
    rw [List.foldl_cons] at h
    obtain hpushed | ⟨hrest, hs⟩ := ih h
    · unfold pushSegment at hpushed
      split at hpushed
      · exact Or.inl hpushed
      rename_i hkept
      split at hpushed
      · exact Or.inl ((List.dropLast_sublist segments).subset hpushed)
      rename_i hdots
      rcases List.mem_append.mp hpushed with hold | hnew
      · exact Or.inl hold
      · obtain rfl := List.mem_singleton.mp hnew
        refine Or.inr ⟨List.mem_cons_self, ?_⟩
        simp only [not_or] at hkept
        simp [skipped, hkept, hdots]
    · exact Or.inr ⟨List.mem_cons_of_mem _ hrest, hs⟩

theorem mem_of_mem_splitOn (h : s ∈ text.splitOn '/') (hc : c ∈ s) : c = '/' ∨ c ∈ text := by
  have hwithin := between_infix_of_mem h
  rw [joined_splitOn] at hwithin
  have hmem := hwithin.subset (show c ∈ between s by simp [between, hc])
  simpa [or_assoc, or_comm, or_left_comm] using hmem

/-- A path is made of proper segments, cut at the limit. -/
theorem canonicalTarget_eq (text : List Char) :
    ∃ segments : List (List Char), (∀ t ∈ segments, ('/' ∉ t ∧ t ∉ skipped) ∧ '\n' ∉ t) ∧
      canonicalTarget text = (joinSegments segments).take maxPathLength := by
  unfold canonicalTarget
  dsimp only
  generalize hplain : (unquote (beforeFirst '#' (beforeFirst '?' text))).filter (!isControl ·) = plain
  have hcontrol : '\n' ∉ plain := by
    rw [← hplain, List.mem_filter]
    exact fun h => absurd h.2 (by decide)
  have hcollapsed : ∀ c ∈ collapseSlashes plain, c ∈ plain := by
    intro c hc
    exact (collapseSlashes_sublist plain).subset hc
  refine ⟨_, fun t ht => ?_, rfl⟩
  obtain hnil | ⟨hsplit, hs⟩ := of_mem_foldl_pushSegment ht
  · cases hnil
  refine ⟨⟨slash_not_mem_splitOn hsplit, hs⟩, fun hmem => ?_⟩
  obtain hslash | hmem := mem_of_mem_splitOn hsplit hmem
  · exact absurd hslash (by decide)
  split at hmem
  · exact hcontrol (hcollapsed _ hmem)
  · rcases List.mem_cons.mp hmem with hslash | hmem
    · exact absurd hslash (by decide)
    · exact hcontrol (hcollapsed _ hmem)

theorem joinSegments_leading (segments : List (List Char)) : joinSegments segments <+: joined segments ++ ['/'] := by
  by_cases h : segments = []
  · subst h
    exact List.prefix_rfl
  · rw [joinSegments_eq h]
    exact List.prefix_append _ _

theorem resolved_canonicalTarget (text : List Char) : Resolved (canonicalTarget text) := by
  obtain ⟨segments, hsegments, heq⟩ := canonicalTarget_eq text
  rw [heq]
  have hresolved := resolved_joined fun t ht => (hsegments t ht).1
  exact hresolved.of_infix (( List.take_prefix _ _).trans (joinSegments_leading segments)).isInfix

theorem newline_not_mem_canonicalTarget (text : List Char) : '\n' ∉ canonicalTarget text := by
  obtain ⟨segments, hsegments, heq⟩ := canonicalTarget_eq text
  rw [heq]
  intro h
  have hmem := (( List.take_prefix _ _).trans (joinSegments_leading segments)).subset h
  rcases List.mem_append.mp hmem with hmem | hmem
  · obtain ⟨t, ht, hc⟩ := List.mem_flatMap.mp hmem
    rcases List.mem_cons.mp hc with hc | hc
    · exact absurd hc (by decide)
    · exact (hsegments t ht).2 hc
  · simp at hmem

theorem head?_canonicalTarget (text : List Char) : (canonicalTarget text).head? = some '/' := rfl

/-- A path that is not as long as the limit was not cut, so it does not end in a slash either. -/
theorem resolved_concat_of_canonicalTarget (hlen : (canonicalTarget text).length < maxPathLength)
    (hne : canonicalTarget text ≠ ['/']) : Resolved (canonicalTarget text ++ ['/']) := by
  obtain ⟨segments, hsegments, heq⟩ := canonicalTarget_eq text
  rw [heq, List.length_take] at hlen
  have hfits : (joinSegments segments).length ≤ maxPathLength := by omega
  rw [List.take_of_length_le hfits] at heq
  have hsome : segments ≠ [] := by
    rintro rfl
    exact hne heq
  rw [heq, joinSegments_eq hsome]
  exact resolved_joined fun t ht => (hsegments t ht).1

/-! ## What goes through as it is -/

/-- A character that neither decoding nor stripping nor cutting touches. -/
def isLiteral (c : Char) : Bool :=
  isAscii c && !isControl c && !isSpace c && c != '%' && c != '?' && c != '#'

theorem unquoteToBytes_of_literal (h : ∀ c ∈ text, isLiteral c = true) : unquoteToBytes text = text.map Char.toNat := by
  induction text with
  | nil => rfl
  | cons c text ih =>
    have hc : c ≠ '%' := by
      rintro rfl
      exact absurd (h '%' List.mem_cons_self) (by decide)
    rw [unquoteToBytes.eq_3 _ _ (by rintro _ _ _ rfl; exact fun _ => hc rfl), ih fun d hd => h d (List.mem_cons_of_mem _ hd)]
    rfl

theorem decodeUtf8_of_ascii (h : ∀ c ∈ text, isAscii c = true) : decodeUtf8 none (text.map Char.toNat) = text := by
  induction text with
  | nil => rfl
  | cons c text ih =>
    have hc : c.toNat < 128 := by simpa [isAscii] using h c List.mem_cons_self
    have hfirst : takeOctet none c.toNat = ([c], none) := by
      unfold takeOctet beginOctet firstOctet
      simp [hc]
    rw [List.map_cons, decodeUtf8, hfirst]
    change [c] ++ decodeUtf8 none (text.map Char.toNat) = _
    rw [ih fun d hd => h d (List.mem_cons_of_mem _ hd)]
    rfl

theorem isAscii_of_isLiteral (h : isLiteral c = true) : isAscii c = true := by
  simp only [isLiteral, Bool.and_eq_true] at h
  exact h.1.1.1.1.1

theorem unquote_of_literal (h : ∀ c ∈ text, isLiteral c = true) : unquote text = text := by
  have hpart : ∀ part ∈ text.splitBy (fun a b => isAscii a == isAscii b), ∀ c ∈ part, isLiteral c = true := by
    intro part hp c hc
    apply h
    rw [← List.flatten_splitBy (fun a b => isAscii a == isAscii b) text]
    exact List.mem_flatten_of_mem hp hc
  unfold unquote
  conv_rhs => rw [← List.flatten_splitBy (fun a b => isAscii a == isAscii b) text]
  rw [List.flatMap_def]
  congr 1
  conv_rhs => rw [← List.map_id (text.splitBy fun a b => isAscii a == isAscii b)]
  apply List.map_congr_left
  intro part hp
  have hascii : ∀ c ∈ part, isAscii c = true := fun c hc => isAscii_of_isLiteral (hpart part hp c hc)
  rw [if_pos (List.all_eq_true.mpr hascii), unquoteToBytes_of_literal (hpart part hp), decodeUtf8_of_ascii hascii]
  rfl

theorem collapseSlashes_of_resolved (h : ¬ ['/', '/'] <:+: text) : collapseSlashes text = text := by
  induction text with
  | nil => rfl
  | cons c text ih =>
    have hrest := ih fun hwithin => h (List.infix_cons hwithin)
    unfold collapseSlashes at hrest ⊢
    rw [List.foldr_cons, hrest, if_neg]
    rintro ⟨rfl, hhead⟩
    obtain ⟨after, rfl⟩ := List.head?_eq_some_iff.mp hhead
    exact h ⟨[], after, rfl⟩

theorem foldl_pushSegment_of_proper {segments rest : List (List Char)} (h : ∀ t ∈ rest, t ∉ skipped) :
    rest.foldl pushSegment segments = segments ++ rest := by
  induction rest generalizing segments with
  | nil => rw [List.foldl_nil, List.append_nil]
  | cons t rest ih =>
    have ht : t ≠ [] ∧ t ≠ ['.'] ∧ t ≠ ['.', '.'] := by simpa [skipped] using h t List.mem_cons_self
    have hpush : pushSegment segments t = segments ++ [t] := by
      unfold pushSegment
      rw [if_neg (by simp [ht]), if_neg ht.2.2]
    rw [List.foldl_cons, hpush, ih fun u hu => h u (List.mem_cons_of_mem _ hu), List.append_assoc]
    rfl

theorem canonicalTarget_of_resolved (hhead : text.head? = some '/') (hchars : ∀ c ∈ text, isLiteral c = true)
    (h : Resolved (text ++ ['/'])) : canonicalTarget text = text.take maxPathLength := by
  obtain ⟨rest, rfl⟩ := List.head?_eq_some_iff.mp hhead
  have hcut : ∀ separator, isLiteral separator = false → beforeFirst separator ('/' :: rest) = '/' :: rest := by
    intro separator hs
    rw [beforeFirst, List.takeWhile_eq_self_iff]
    intro c hc
    rw [bne_iff_ne]
    rintro rfl
    rw [hchars c hc] at hs
    cases hs
  have hcontrol : ('/' :: rest).filter (!isControl ·) = '/' :: rest := by
    rw [List.filter_eq_self]
    intro c hc
    have hliteral := hchars c hc
    simp only [isLiteral, Bool.and_eq_true] at hliteral
    exact hliteral.1.1.1.1.2
  have hcollapse : collapseSlashes ('/' :: rest) = '/' :: rest := by
    apply collapseSlashes_of_resolved
    intro hwithin
    exact h [] (by decide) (hwithin.trans (List.prefix_append _ _).isInfix)
  have hproper : ∀ t ∈ rest.splitOn '/', t ∉ skipped := by
    intro t ht hs
    have hb := between_infix_of_mem ht
    rw [joined_splitOn] at hb
    exact h t hs hb
  have hsplit : ('/' :: rest).splitOn '/' = [] :: rest.splitOn '/' := by
    rw [List.splitOn_cons_eq_if_modifyHead, if_pos (by simp)]
  unfold canonicalTarget
  rw [hcut '?' (by decide), hcut '#' (by decide), unquote_of_literal hchars]
  dsimp only
  rw [hcontrol, hcollapse, if_pos (by rfl), hsplit, List.foldl_cons]
  change (joinSegments ((rest.splitOn '/').foldl pushSegment [])).take maxPathLength = _
  rw [foldl_pushSegment_of_proper hproper, List.nil_append, joinSegments_eq (List.splitOn_ne_nil '/' rest),
    joined_splitOn]

theorem normalizeTarget_of_resolved {py : Interpreter} (hhead : text.head? = some '/')
    (hchars : ∀ c ∈ text, isLiteral c = true) (h : Resolved (text ++ ['/'])) :
    normalizeTarget py text = .ok (text.take maxPathLength) := by
  have hstrip : strip text = text := by
    apply strip_of_all
    intro c hc
    have hliteral := hchars c hc
    simp only [isLiteral, Bool.and_eq_true, Bool.not_eq_true'] at hliteral
    exact hliteral.1.1.1.2
  have hpath : targetPath py text = .ok text := by
    obtain ⟨rest, rfl⟩ := List.head?_eq_some_iff.mp hhead
    rfl
  unfold normalizeTarget
  rw [if_neg (by rintro rfl; cases hhead), hstrip, hpath]
  exact congrArg Except.ok (canonicalTarget_of_resolved hhead hchars h)

theorem canonical_of_normalizeTarget {py : Interpreter} {value path : List Char}
    (h : normalizeTarget py value = .ok path) : ∃ text, path = canonicalTarget text := by
  unfold normalizeTarget at h
  split at h
  · exact ⟨[], (Except.ok.inj h).symm⟩
  · cases htarget : targetPath py (strip value) with
    | error e =>
      rw [htarget] at h
      cases h
    | ok text =>
      rw [htarget] at h
      exact ⟨text, (Except.ok.inj h).symm⟩

end EasyHaProxy.Guardd
