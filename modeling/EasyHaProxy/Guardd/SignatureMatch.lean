import EasyHaProxy.Guardd.Signatures
import EasyHaProxy.Guardd.Canonical
import EasyHaProxy.Guardd.HostileLines

/-! Which of the tokens an operator can store some request target is classified by. A token of a whole path
has to be a canonical path. -/
namespace EasyHaProxy.Guardd

open Text Python

/-! ## Splitting a path -/

section Split

variable {text rest a b segment : List Char} {segments : List (List Char)} {n : Nat}

theorem span_slash (h : '/' ∉ a) : (a ++ '/' :: b).span (· != '/') = (a, '/' :: b) := by
  rw [List.span_eq_takeWhile_dropWhile, takeWhile_slash h, List.dropWhile_append_of_pos]
  · simp
  · intro c hc
    simpa using fun he : c = '/' => h (he ▸ hc)

theorem splitAtMost_slash (h : '/' ∉ a) : splitAtMost '/' (n + 1) (a ++ '/' :: b) = a :: splitAtMost '/' n b := by
  rw [splitAtMost, span_slash h]

theorem splitAtMost_of_not_mem (h : '/' ∉ a) : splitAtMost '/' n a = [a] := by
  cases n with
  | zero => rfl
  | succ n =>
    have hall : ∀ c ∈ a, (c != '/') = true := fun c hc => by simpa using fun he : c = '/' => h (he ▸ hc)
    rw [splitAtMost, List.span_eq_takeWhile_dropWhile, List.dropWhile_eq_nil_iff.mpr hall,
      List.takeWhile_eq_self_iff.mpr hall]

theorem splitAtMost_joined (ha : '/' ∉ a) (h : ∀ s ∈ segments, '/' ∉ s) :
    splitAtMost '/' (segments.length + 1 + n) (a ++ joined segments ++ '/' :: b) =
      a :: segments ++ splitAtMost '/' n b := by
  induction segments generalizing a with
  | nil =>
    rw [joined_nil, List.append_nil, List.length_nil, Nat.zero_add, Nat.add_comm, splitAtMost_slash ha]
    rfl
  | cons s segments ih =>
    have hrest := ih (h s List.mem_cons_self) fun t ht => h t (List.mem_cons_of_mem _ ht)
    have hshape : a ++ joined (s :: segments) ++ '/' :: b = a ++ '/' :: (s ++ joined segments ++ '/' :: b) := by
      simp
    rw [hshape, List.length_cons, Nat.add_right_comm _ 1 1, Nat.add_right_comm _ 1 n, splitAtMost_slash ha, hrest]
    rfl

/-- A piece stands behind a slash, and one with a slash in it is all that is left. -/
theorem of_mem_splitAtMost (h : segment ∈ splitAtMost '/' n rest) :
    ∃ before after, '/' :: rest = before ++ '/' :: segment ++ after ∧ ('/' ∈ segment → after = []) := by
  induction n generalizing rest with
  | zero =>
    obtain rfl := List.mem_singleton.mp h
    exact ⟨[], [], by simp, fun _ => rfl⟩
  | succ n ih =>
    by_cases hslash : '/' ∈ rest
    · obtain ⟨a, b, rfl, ha⟩ := List.eq_append_cons_of_mem hslash
      rw [splitAtMost_slash ha] at h
      rcases List.mem_cons.mp h with rfl | h
      · exact ⟨[], '/' :: b, by simp, fun hmem => absurd hmem ha⟩
      · obtain ⟨before, after, heq, hafter⟩ := ih h
        refine ⟨'/' :: a ++ before, after, ?_, hafter⟩
        rw [List.append_assoc, List.append_assoc, ← List.append_assoc before, ← heq]
        simp
    · rw [splitAtMost_of_not_mem hslash] at h
      obtain rfl := List.mem_singleton.mp h
      exact ⟨[], [], by simp, fun _ => rfl⟩

end Split

/-! ## The segments that decide -/

section Segments

variable {py : Interpreter} {patterns : Patterns} {signatures : Signatures} {path segment : List Char}
  {segments before after : List (List Char)} {rule : String × String} {probable : Option (String × String)}

def Telling (py : Interpreter) (patterns : Patterns) (signatures : Signatures) (path : List Char)
    (category : String) : Prop :=
  patterns.decisiveCategories.contains category = true ∨ spared py patterns signatures path = false

theorem of_segmentsRule (h : segmentsRule py patterns signatures path probable segments = some rule) :
    (probable = some rule ∨ ∃ s ∈ segments, segmentRule py signatures s = some rule) ∧
      Telling py patterns signatures path rule.2 := by
  induction segments generalizing probable with
  | nil =>
    unfold segmentsRule at h
    split at h
    · cases h
    · rename_i hspared
      exact ⟨Or.inl h, Or.inr (by simpa using hspared)⟩
  | cons s segments ih =>
    unfold segmentsRule at h
    split at h
    · obtain ⟨hfrom, htelling⟩ := ih h
      exact ⟨hfrom.imp_right fun ⟨t, ht, hr⟩ => ⟨t, List.mem_cons_of_mem _ ht, hr⟩, htelling⟩
    · rename_i found hfound
      have hs : segmentRule py signatures s = some found := by
        split at hfound
        · cases hfound
        · exact hfound
      split at h
      · rename_i hdecisive
        obtain rfl := Option.some.inj h
        exact ⟨Or.inr ⟨s, List.mem_cons_self, hs⟩, Or.inl hdecisive⟩
      · obtain ⟨hfrom, htelling⟩ := ih h
        refine ⟨?_, htelling⟩
        obtain hprobable | ⟨t, ht, hr⟩ := hfrom
        · rw [Option.or_eq_some_iff] at hprobable
          obtain hprobable | ⟨-, hfirst⟩ := hprobable
          · exact Or.inl hprobable
          · exact Or.inr ⟨s, List.mem_cons_self, hs.trans hfirst⟩
        · exact Or.inr ⟨t, List.mem_cons_of_mem _ ht, hr⟩

theorem segmentsRule_skip (h : ∀ s ∈ before, segmentRule py signatures s = none) :
    segmentsRule py patterns signatures path probable (before ++ segments) =
      segmentsRule py patterns signatures path probable segments := by
  induction before with
  | nil => rfl
  | cons s before ih =>
    have hs : (if s = [] then none else segmentRule py signatures s) = none := by
      rw [h s List.mem_cons_self]
      exact ite_self _
    rw [List.cons_append, segmentsRule, hs]
    exact ih fun t ht => h t (List.mem_cons_of_mem _ ht)

/-- The one segment that is taken for anything decides. -/
theorem segmentsRule_only (hbefore : ∀ s ∈ before, segmentRule py signatures s = none)
    (hafter : ∀ s ∈ after, segmentRule py signatures s = none) (hne : segment ≠ [])
    (hrule : segmentRule py signatures segment = some rule)
    (htelling : Telling py patterns signatures path rule.2) :
    segmentsRule py patterns signatures path none (before ++ segment :: after) = some rule := by
  rw [segmentsRule_skip hbefore, segmentsRule, if_neg hne, hrule]
  change (if patterns.decisiveCategories.contains rule.2 then _ else _) = _
  split
  · rfl
  · rename_i hprobable
    obtain hdecisive | hspared := htelling
    · exact absurd hdecisive hprobable
    · rw [← List.append_nil after, segmentsRule_skip hafter, segmentsRule, hspared]
      rfl

end Segments

/-! ## Words no entry has -/

section Marks

variable {py : Interpreter} {patterns : Patterns} {signatures : Signatures} {path segment text t : List Char}
  {n : Nat}

/-- No entry of the tables has an exclamation mark in its token. -/
def Signatures.Unmarked (signatures : Signatures) : Prop :=
  ∀ row : String × String, row ∈ signatures.scannerSegments.entries ∨ row ∈ signatures.scannerPaths.entries →
    '!' ∉ row.1.toList

def mark (n : Nat) : List Char := List.replicate n '!'

theorem lower_mark (hlower : LowersText py.lower) : py.lower (mark n) = mark n := by
  rw [(hlower.lowered _).eq_map fun c hc => by rw [List.eq_of_mem_replicate hc]; decide, mark, List.map_replicate]
  rfl

/-- No segment of exclamation marks is taken for anything. -/
theorem segmentRule_mark (hlower : LowersText py.lower) (hs : signatures.Unmarked) (hn : n ≠ 0) :
    segmentRule py signatures (mark n) = none := by
  cases h : segmentRule py signatures (mark n) with
  | none => rfl
  | some rule =>
    have hmark : '!' ∈ mark n := List.mem_replicate.mpr ⟨hn, rfl⟩
    obtain ⟨-, hmem, hplain | hlow | ⟨hstar, hleading⟩⟩ := segmentRule_eq_some h
    · exact absurd (hplain ▸ hmark) (hs rule (Or.inl hmem))
    · rw [lower_mark hlower] at hlow
      exact absurd (hlow ▸ hmark) (hs rule (Or.inl hmem))
    · -- A prefix of the marks is not empty, so its token has one.
      rw [lower_mark hlower] at hleading
      simp only [isPrefixToken, Bool.and_eq_true, decide_eq_true_eq] at hstar
      have hbase : rule.1.toList.dropLast ≠ [] := by
        intro hnil
        have hlen := congrArg List.length hnil
        rw [List.length_dropLast, List.length_nil] at hlen
        omega
      obtain ⟨c, rest, hc⟩ := List.exists_cons_of_ne_nil ((hlower.lowered _).ne_nil hbase)
      rw [prefixOf, hc] at hleading
      obtain rfl : c = '!' := List.eq_of_mem_replicate (hleading.subset List.mem_cons_self)
      have hin : '!' ∈ rule.1.toList.dropLast := by
        rw [← (hlower.lowered _).mem_iff (by decide), hc]
        exact List.mem_cons_self
      exact absurd (List.dropLast_subset _ hin) (hs rule (Or.inl hmem))

theorem named_of_mark {name : List Char} (hs : signatures.Unmarked) (hmark : '!' ∈ name) :
    named signatures.scannerPaths name = none := by
  cases h : named signatures.scannerPaths name with
  | none => rfl
  | some rule =>
    have hname := (named_eq_some.mp h).2.2
    refine absurd ?_ (hs rule (Or.inr (mem_of_named h)))
    rw [hname, String.toList_ofList]
    exact hmark

/-! ## Paths that are spared -/

theorem suffix_slash_iff {ending a b : List Char} (h : '/' ∉ ending) : ending <:+ a ++ '/' :: b ↔ ending <:+ b := by
  constructor
  · intro hsuffix
    obtain hend | hlong := List.suffix_or_suffix_of_suffix hsuffix (List.suffix_append a ('/' :: b))
    · obtain rfl | hend := List.suffix_cons_iff.mp hend
      · exact absurd List.mem_cons_self h
      · exact hend
    · exact absurd (hlong.subset List.mem_cons_self) h
  · intro hsuffix
    exact hsuffix.trans ((List.suffix_cons _ _).trans (List.suffix_append _ _))

theorem assetSuffixes_plain : ∀ ending ∈ assetSuffixes,
    '/' ∉ ending ∧ '!' ∉ ending ∧ '*' ∉ ending ∧ 2 < ending.length := by
  decide +kernel

theorem isAsset_iff : isAsset py (signatures.inForce py patterns) path = true ↔
    ∃ ending ∈ assetSuffixes, ending <:+ py.lower path := by
  change assetSuffixes.any (·.isSuffixOf (py.lower path)) = true ↔ _
  simp

/-- The last segment tells whether a path is an asset. -/
theorem isAsset_slash (hlower : LowersText py.lower) {a b : List Char} :
    isAsset py (signatures.inForce py patterns) (a ++ '/' :: b) =
      isAsset py (signatures.inForce py patterns) b := by
  rw [Bool.eq_iff_iff, isAsset_iff, isAsset_iff, hlower.slash]
  constructor
  · rintro ⟨ending, hmem, hsuffix⟩
    exact ⟨ending, hmem, (suffix_slash_iff (assetSuffixes_plain ending hmem).1).mp hsuffix⟩
  · rintro ⟨ending, hmem, hsuffix⟩
    exact ⟨ending, hmem, (suffix_slash_iff (assetSuffixes_plain ending hmem).1).mpr hsuffix⟩

/-- A path that ends in a mark or a star is no asset. -/
theorem isAsset_concat (hlower : LowersText py.lower) {c : Char} (hc : c = '!' ∨ c = '*')
    (ht : ∀ d ∈ t ++ [c], isAscii d = true) : isAsset py (signatures.inForce py patterns) (t ++ [c]) = false := by
  rw [Bool.eq_false_iff, Ne, isAsset_iff]
  rintro ⟨ending, hmem, hsuffix⟩
  obtain ⟨-, hmark, hstar, hlen⟩ := assetSuffixes_plain ending hmem
  have hne : ending ≠ [] := by
    rintro rfl
    cases hlen
  rw [(hlower.lowered _).eq_map ht, List.map_append, List.map_singleton] at hsuffix
  have hlast : c.toLower ∈ ending := by
    obtain ⟨init, hinit⟩ := hsuffix
    have hget := congrArg List.getLast? hinit
    rw [List.getLast?_append_of_ne_nil _ hne, List.getLast?_concat] at hget
    exact List.mem_of_getLast? hget
  rcases hc with rfl | rfl
  · exact hmark hlast
  · exact hstar hlast

theorem isAsset_skipped (hlower : LowersText py.lower) (ht : t ∈ skipped) :
    isAsset py (signatures.inForce py patterns) t = false := by
  have hshort : ∀ s ∈ skipped, s.all isAscii = true ∧ s.length ≤ 2 := by decide
  rw [Bool.eq_false_iff, Ne, isAsset_iff]
  rintro ⟨ending, hmem, hsuffix⟩
  have hlen := hsuffix.length_le
  rw [(hlower.lowered _).eq_map (List.all_eq_true.mp (hshort t ht).1), List.length_map] at hlen
  exact absurd (hlen.trans (hshort t ht).2) (Nat.not_le_of_lt (assetSuffixes_plain ending hmem).2.2.2)

theorem authenticationPaths_plain : ∀ entry ∈ authenticationPaths,
    (entry.rdropWhile (· == '/')).take 2 = ['/', 'a'] := by
  decide +kernel

theorem isAuthenticationEndpoint_mark (hlower : LowersText py.lower)
    (ht : ∀ c ∈ '/' :: '!' :: text, isAscii c = true) :
    isAuthenticationEndpoint py (signatures.inForce py patterns) ('/' :: '!' :: text) = false := by
  change (authenticationPaths.any fun entry => _) = false
  rw [List.any_eq_false]
  intro entry hmem
  have hentry := authenticationPaths_plain entry hmem
  rw [(hlower.lowered _).eq_map ht]
  dsimp only
  generalize entry.rdropWhile (· == '/') = plain at hentry
  obtain ⟨rest, rfl⟩ : ∃ rest, plain = '/' :: 'a' :: rest := by
    match plain, hentry with
    | a :: b :: rest, h =>
      rw [List.take_succ_cons, List.take_succ_cons, List.take_zero] at h
      obtain ⟨rfl, hb⟩ := List.cons.inj h
      obtain ⟨rfl, -⟩ := List.cons.inj hb
      exact ⟨rest, rfl⟩
  have h1 : '!'.toLower = '!' := by decide
  have h2 : '/'.toLower = '/' := by decide
  simp [h1, h2]

end Marks

/-! ## What a token needs -/

section Match

variable {py : Interpreter} {patterns : Patterns} {signatures : Signatures} {values : ValueText}
  {shipped : Shipped} {overrides : Overrides} {data : Json} {path segment : List Char}
  {token category : String} {n : Nat}

/-- Some target becomes a path that the entry of the token decides. -/
def MatchesThrough (py : Interpreter) (patterns : Patterns) (signatures : Signatures)
    (token category : String) : Prop :=
  ∃ target path, normalizeTarget py target = .ok path ∧
    pathRule py patterns signatures path = some (entryOf token, category) ∧
    classifyPath py (signatures.inForce py patterns) path = category

/-- A token of a whole path is a canonical path. One of a segment has no line end, no empty and no
dot segment but the last, and where it has several, none is spared for its ending. -/
def CanMatch (py : Interpreter) (patterns : Patterns) (signatures : Signatures)
    (token category : String) : Prop :=
  if token.toList.head? = some '/' then Resolved (token.toList ++ ['/'])
  else
    '\n' ∉ token.toList ∧ Resolved ('/' :: token.toList) ∧
      ('/' ∈ token.toList → patterns.decisiveCategories.contains category = true ∨
        isAsset py (signatures.inForce py patterns) token.toList = false)

theorem matchesThrough_iff : MatchesThrough py patterns signatures token category ↔
    ∃ target path, normalizeTarget py target = .ok path ∧
      pathRule py patterns signatures path = some (entryOf token, category) := by
  constructor
  · rintro ⟨target, path, hpath, hrule, -⟩
    exact ⟨target, path, hpath, hrule⟩
  · rintro ⟨target, path, hpath, hrule⟩
    refine ⟨target, path, hpath, hrule, ?_⟩
    rw [classifyPath_eq, hrule]
    rfl

/-! ### What matches has what it takes -/

theorem tokenChar_ascii {c : Char} (h : tokenChar c = true) : isAscii c = true := by
  simp only [tokenChar, isAlpha, asciiDigit, Bool.or_eq_true, Bool.and_eq_true, decide_eq_true_eq,
    List.contains_iff_mem] at h
  have hlt : ∀ d : Char, d.toNat < 128 → c ≤ d → isAscii c = true := fun d hd hle =>
    decide_eq_true (lt_of_le_of_lt hle hd)
  rcases h with (((⟨-, hle⟩ | ⟨-, hle⟩) | ⟨-, hle⟩) | hmem)
  · exact hlt 'z' (by decide) hle
  · exact hlt 'Z' (by decide) hle
  · exact hlt '9' (by decide) hle
  · have hlisted : ['.', '_', '~', '/', '@', ':', '+', '-'].all isAscii = true := by decide
    exact List.all_eq_true.mp hlisted c hmem

theorem IsToken.ascii {t : List Char} (h : IsToken t) : ∀ c ∈ t, isAscii c = true := by
  intro c hc
  rcases h.chars c hc with htoken | rfl | rfl
  · exact tokenChar_ascii htoken
  · decide
  · decide

theorem between_plain {s : List Char} (hs : s ∈ skipped) : ∀ c ∈ between s, isPlain c = true := by
  have hall : ∀ s ∈ skipped, (between s).all isPlain = true := by decide
  exact List.all_eq_true.mp (hall s hs)

theorem slash_plain : ∀ c ∈ ['/'], isPlain c = true := by
  intro c hc
  rw [List.mem_singleton.mp hc]
  decide

theorem infix_of_segmentRule (hlower : LowersText py.lower) {front pattern : List Char}
    (hfront : ∀ c ∈ front, isPlain c = true) (hplain : ∀ c ∈ pattern, isPlain c = true)
    (hstar : pattern.getLast? ≠ some '*') {rule : String × String}
    (hrule : segmentRule py signatures segment = some rule) (h : pattern <:+: front ++ rule.1.toList) :
    pattern <:+: front ++ segment := by
  have hsegment := (hlower.lowered segment).append_plain hfront
  obtain ⟨-, -, hname | hname | ⟨hprefixed, hleading⟩⟩ := segmentRule_eq_some hrule
  · rwa [hname] at h
  · rw [hname] at h
    exact (hsegment.infix_iff hplain).mp h
  · simp only [isPrefixToken, Bool.and_eq_true, beq_iff_eq] at hprefixed
    obtain ⟨base, hbase⟩ := List.getLast?_eq_some_iff.mp hprefixed.1
    rw [hbase, ← List.append_assoc, List.infix_concat_iff] at h
    obtain hsuffix | hwithin := h
    · -- The star at its end is not part of the pattern.
      by_cases hempty : pattern = []
      · rw [hempty]
        exact List.nil_infix
      · obtain ⟨init, hinit⟩ := hsuffix
        have hget := congrArg List.getLast? hinit
        rw [List.getLast?_append_of_ne_nil _ hempty, List.getLast?_concat] at hget
        exact absurd hget hstar
    · rw [prefixOf, hbase, List.dropLast_concat] at hleading
      rw [← ((hlower.lowered base).append_plain hfront).infix_iff hplain] at hwithin
      rw [← hsegment.infix_iff hplain]
      exact hwithin.trans ((List.prefix_append_right_inj front).mpr hleading).isInfix

/-- A token that ends like an asset makes the segment end like one. -/
theorem isAsset_of_segmentRule (hlower : LowersText py.lower) {rule : String × String}
    (htoken : IsToken rule.1.toList) (hrule : segmentRule py signatures segment = some rule)
    (h : isAsset py (signatures.inForce py patterns) rule.1.toList = true) :
    isAsset py (signatures.inForce py patterns) segment = true := by
  obtain ⟨-, -, hname | hname | ⟨hprefixed, -⟩⟩ := segmentRule_eq_some hrule
  · rwa [hname] at h
  · -- ASCII text that was lowered is not changed by lowering it again.
    have hsame : py.lower rule.1.toList = py.lower segment := by
      rw [(hlower.lowered _).eq_map htoken.ascii, hname]
      exact (hlower.lowered segment).map_toLower (hname ▸ htoken.ascii)
    rw [isAsset_iff] at h ⊢
    rwa [hsame] at h
  · simp only [isPrefixToken, Bool.and_eq_true, beq_iff_eq] at hprefixed
    obtain ⟨base, hbase⟩ := List.getLast?_eq_some_iff.mp hprefixed.1
    have hascii := htoken.ascii
    rw [hbase] at h hascii
    rw [isAsset_concat hlower (Or.inr rfl) hascii] at h
    cases h

theorem canMatch_of_matchesThrough (hlower : LowersText py.lower) (htoken : IsToken token.toList)
    (h : MatchesThrough py patterns signatures token category) :
    CanMatch py patterns signatures token category := by
  obtain ⟨target, path, hpath, hrule, -⟩ := h
  obtain ⟨text, rfl⟩ := canonical_of_normalizeTarget hpath
  unfold pathRule at hrule
  split at hrule
  · cases hrule
  rename_i hroot
  unfold CanMatch
  split at hrule
  · -- A whole path: the token is the path, and too short for it to have been cut.
    rename_i rule hname
    obtain ⟨hentry, -⟩ := Prod.mk.inj (Option.some.inj hrule)
    unfold entryOf at hentry
    split at hentry
    · rename_i hhead
      rw [if_pos hhead]
      obtain rfl : rule.1 = token := Entry.path.inj hentry
      have hsame : rule.1.toList = canonicalTarget text := by
        rw [(named_eq_some.mp hname).2.2, String.toList_ofList]
      have hlen := htoken.length_le
      rw [hsame] at hlen ⊢
      exact resolved_concat_of_canonicalTarget (lt_of_le_of_lt hlen (by decide)) fun he => hroot (Or.inr he)
    · cases hentry
  · obtain ⟨rule, hsegments, hpair⟩ := Option.map_eq_some_iff.mp hrule
    obtain ⟨hentry, rfl⟩ := Prod.mk.inj hpair
    unfold entryOf at hentry
    split at hentry
    · cases hentry
    rename_i hhead
    rw [if_neg hhead]
    obtain rfl : rule.1 = token := Entry.segment.inj hentry
    obtain ⟨hfrom, htelling⟩ := of_segmentsRule hsegments
    obtain ⟨segment, hmem, hsegment⟩ := hfrom.resolve_left nofun
    obtain ⟨rest, hrest⟩ := List.head?_eq_some_iff.mp (head?_canonicalTarget text)
    rw [hrest, ← List.nil_append ('/' :: rest), maxMatchedSegments, splitAtMost_slash (by simp), List.tail_cons] at hmem
    obtain ⟨before, after, heq, hafter⟩ := of_mem_splitAtMost hmem
    have hin : '/' :: segment <:+: canonicalTarget text := by
      rw [hrest, heq]
      exact List.infix_append before _ after
    have hone : ∀ c, isPlain c = true → c ≠ '*' → c ∈ rule.1.toList → c ∈ segment := by
      intro c hc hstar hmem
      have hwithin : [c] <:+: [] ++ segment :=
        infix_of_segmentRule hlower nofun (by simpa using hc) (by simpa using hstar) hsegment
          ((List.singleton_infix_iff _ _).mpr hmem)
      exact (List.singleton_infix_iff _ _).mp hwithin
    refine ⟨?_, ?_, ?_⟩
    · intro hline
      have hsegline := hone '\n' (by decide) (by decide) hline
      exact newline_not_mem_canonicalTarget text (hin.subset (List.mem_cons_of_mem _ hsegline))
    · intro s hs hb
      have hlast : (between s).getLast? ≠ some '*' := by
        rw [between, List.getLast?_concat]
        decide
      have hbetween : between s <:+: ['/'] ++ segment :=
        infix_of_segmentRule hlower slash_plain (between_plain hs) hlast hsegment hb
      exact resolved_canonicalTarget text s hs (hbetween.trans hin)
    · intro hslash
      obtain hdecisive | hspared := htelling
      · exact Or.inl hdecisive
      · refine Or.inr ?_
        by_contra hasset
        rw [Bool.not_eq_false] at hasset
        -- A segment with a slash in it is the rest of the path, so the path ends as it does.
        have hsegasset := isAsset_of_segmentRule hlower htoken hsegment hasset
        rw [hafter (hone '/' (by decide) (by decide) hslash), List.append_nil] at heq
        rw [spared, Bool.or_eq_false_iff, hrest, heq, isAsset_slash hlower, hsegasset] at hspared
        cases hspared.1

/-! ### What has what it takes matches -/

theorem IsToken.literal {t : List Char} (h : IsToken t) (hline : '\n' ∉ t) : ∀ c ∈ t, isLiteral c = true := by
  intro c hc
  rcases h.chars c hc with htoken | rfl | rfl
  · exact forall_ascii (P := fun c => tokenChar c = true → isLiteral c = true) (by decide +kernel)
      (tokenChar_ascii htoken) htoken
  · decide
  · exact absurd hc hline

theorem named_stored {table : Dict String String} (hcategory : category ≠ "")
    (hstored : table.get? token = some category) : named table token.toList = some (token, category) :=
  named_eq_some.mpr ⟨by rwa [String.ofList_toList], hcategory, by rw [String.ofList_toList]⟩

/-- A whole path is a target of its own. -/
theorem matchesThrough_of_path (htoken : IsToken token.toList) (hhead : token.toList.head? = some '/')
    (hcategory : category ≠ "") (hstored : signatures.scannerPaths.get? token = some category)
    (h : Resolved (token.toList ++ ['/'])) : MatchesThrough py patterns signatures token category := by
  obtain ⟨hchars, c, hc, hslash⟩ := htoken.path hhead
  have hline : '\n' ∉ token.toList := fun hmem => absurd (hchars _ hmem) (by decide)
  refine matchesThrough_iff.mpr ⟨token.toList, token.toList, ?_, ?_⟩
  · rw [normalizeTarget_of_resolved hhead (htoken.literal hline) h,
      List.take_of_length_le (htoken.length_le.trans (by decide))]
  · have hroot : ¬ (token.toList = [] ∨ token.toList = ['/']) := by
      rintro (hnil | hone)
      · exact htoken.ne_nil hnil
      · rw [hone, List.mem_singleton] at hc
        exact hslash hc
    rw [pathRule, if_neg hroot, named_stored hcategory hstored, entryOf, if_pos hhead]

theorem pathRule_of_marks (hlower : LowersText py.lower) (hs : signatures.Unmarked)
    (hhead : token.toList.head? ≠ some '/') (hne : token.toList ≠ []) (hcategory : category ≠ "")
    (hstored : signatures.scannerSegments.get? token = some category) {before after : List (List Char)}
    (hmark : '!' ∈ path) (hsplit : (splitAtMost '/' 13 path).tail = before ++ token.toList :: after)
    (hbefore : ∀ s ∈ before, ∃ n, n ≠ 0 ∧ s = mark n) (hafter : ∀ s ∈ after, ∃ n, n ≠ 0 ∧ s = mark n)
    (htelling : Telling py patterns signatures path category) :
    pathRule py patterns signatures path = some (entryOf token, category) := by
  have hroot : ¬ (path = [] ∨ path = ['/']) := by
    rintro (rfl | rfl)
    · cases hmark
    · exact absurd hmark (by decide)
  have hnone : ∀ s : List Char, (∃ n, n ≠ 0 ∧ s = mark n) → segmentRule py signatures s = none := by
    rintro s ⟨n, hn, rfl⟩
    exact segmentRule_mark hlower hs hn
  have hrule : segmentRule py signatures token.toList = some (token, category) := by
    rw [segmentRule, named_stored hcategory hstored, Option.some_or]
  rw [pathRule, if_neg hroot, named_of_mark hs hmark, maxMatchedSegments, hsplit,
    segmentsRule_only (fun s h => hnone s (hbefore s h)) (fun s h => hnone s (hafter s h)) hne hrule htelling,
    entryOf, if_neg hhead]
  rfl

/-- A proper segment matches between two others. -/
theorem matchesThrough_of_segment (hlower : LowersText py.lower) (hs : signatures.Unmarked)
    (htoken : IsToken token.toList) (hline : '\n' ∉ token.toList) (hcategory : category ≠ "")
    (hstored : signatures.scannerSegments.get? token = some category) (hslash : '/' ∉ token.toList)
    (hproper : token.toList ∉ skipped) : MatchesThrough py patterns signatures token category := by
  have hchars : ∀ c ∈ joined [mark 1, token.toList, mark 1], isLiteral c = true := by
    have hslashes : isLiteral '/' = true := by decide
    have hmarks : isLiteral '!' = true := by decide
    intro c hc
    obtain ⟨s, hmem, hc⟩ := List.mem_flatMap.mp hc
    rcases List.mem_cons.mp hc with rfl | hc
    · exact hslashes
    · simp only [List.mem_cons, List.not_mem_nil, or_false] at hmem
      rcases hmem with rfl | rfl | rfl
      · rw [List.eq_of_mem_replicate hc]
        exact hmarks
      · exact htoken.literal hline c hc
      · rw [List.eq_of_mem_replicate hc]
        exact hmarks
  have hresolved : Resolved (joined [mark 1, token.toList, mark 1] ++ ['/']) := by
    apply resolved_joined
    intro s hmem
    simp only [List.mem_cons, List.not_mem_nil, or_false] at hmem
    rcases hmem with rfl | rfl | rfl
    · decide
    · exact ⟨hslash, hproper⟩
    · decide
  have hlen : (joined [mark 1, token.toList, mark 1]).length ≤ maxPathLength := by
    have := htoken.length_le
    simp only [joined_cons, joined_nil, List.length_append, List.length_cons, List.length_nil, mark,
      List.length_replicate, maxTokenLength, maxPathLength] at this ⊢
    omega
  refine matchesThrough_iff.mpr ⟨_, _, normalizeTarget_of_resolved rfl hchars hresolved, ?_⟩
  rw [List.take_of_length_le hlen]
  have hascii : ∀ c ∈ joined [mark 1, token.toList, mark 1], isAscii c = true :=
    fun c hc => isAscii_of_isLiteral (hchars c hc)
  have hhead : token.toList.head? ≠ some '/' := fun h => hslash (List.mem_of_head? h)
  have hsplit : (splitAtMost '/' 13 (joined [mark 1, token.toList, mark 1])).tail =
      [mark 1] ++ token.toList :: [mark 1] := by
    have hparts : ∀ s ∈ [mark 1, token.toList], '/' ∉ s := by
      intro s hmem
      simp only [List.mem_cons, List.not_mem_nil, or_false] at hmem
      rcases hmem with rfl | rfl
      · decide
      · exact hslash
    have hjoined : joined [mark 1, token.toList, mark 1] =
        [] ++ joined [mark 1, token.toList] ++ '/' :: mark 1 := by simp
    have hcount : 13 = [mark 1, token.toList].length + 1 + 10 := rfl
    rw [hjoined, hcount, splitAtMost_joined (by simp) hparts, splitAtMost_of_not_mem (by decide)]
    rfl
  have hone : ∀ s ∈ [mark 1], ∃ n, n ≠ 0 ∧ s = mark n := fun s hmem => ⟨1, by decide, List.mem_singleton.mp hmem⟩
  refine pathRule_of_marks hlower hs hhead htoken.ne_nil hcategory hstored (by simp [mark]) hsplit hone hone
    (Or.inr ?_)
  have hend : joined [mark 1, token.toList, mark 1] = (joined [mark 1, token.toList] ++ ['/']) ++ ['!'] := by
    simp [mark]
  rw [spared, Bool.or_eq_false_iff]
  constructor
  · rw [hend] at hascii ⊢
    exact isAsset_concat hlower (Or.inl rfl) hascii
  · exact isAuthenticationEndpoint_mark hlower hascii

/-- Eleven short segments of marks and a long one. -/
def marks (n : Nat) : List (List Char) := List.replicate 11 (mark 1) ++ [mark n]

theorem of_mem_marks {s : List Char} (hn : n ≠ 0) (h : s ∈ marks n) : ∃ k, k ≠ 0 ∧ s = mark k := by
  rcases List.mem_append.mp h with h | h
  · exact ⟨1, by decide, List.eq_of_mem_replicate h⟩
  · exact ⟨n, hn, List.mem_singleton.mp h⟩

theorem mark_proper (hn : n ≠ 0) : '/' ∉ mark n ∧ mark n ∉ skipped := by
  obtain ⟨k, rfl⟩ := Nat.exists_eq_succ_of_ne_zero hn
  refine ⟨fun h => absurd (List.eq_of_mem_replicate h) (by decide), fun h => ?_⟩
  have hplain : ∀ s ∈ skipped, s.head? ≠ some '!' := by decide
  exact hplain _ h rfl

theorem length_joined_marks : (joined (marks n)).length = n + 23 := by
  have hshort : (joined (List.replicate 11 (mark 1))).length = 22 := by decide
  rw [marks, joined_append, List.length_append, hshort]
  simp only [joined_cons, joined_nil, mark, List.append_nil, List.length_cons, List.length_replicate]
  omega

/-- Dots behind a text put nothing between slashes that was not there. -/
theorem between_infix_dots {s text : List Char} (hs : s ∈ skipped)
    (h : between s <:+: text ++ ['.', '.', '.', '/']) : between s <:+: text := by
  have hdot : ∀ t : List Char, between s <:+: t ++ ['.'] → between s <:+: t := by
    intro t ht
    rw [List.infix_concat_iff] at ht
    refine ht.resolve_left ?_
    rintro ⟨init, hinit⟩
    have hget := congrArg List.getLast? hinit
    rw [between, ← List.append_assoc, List.getLast?_concat, List.getLast?_concat] at hget
    exact absurd (Option.some.inj hget) (by decide)
  have hshape : text ++ ['.', '.', '.', '/'] = text ++ ['.'] ++ ['.'] ++ ['.'] ++ ['/'] := by simp
  rw [hshape, List.infix_concat_iff] at h
  obtain ⟨init, hinit⟩ | hwithin := h
  · have hreverse := congrArg List.reverse hinit
    simp only [skipped, List.mem_cons, List.not_mem_nil, or_false] at hs
    rcases hs with rfl | rfl | rfl <;> simp [between] at hreverse
  · exact hdot _ (hdot _ (hdot _ hwithin))

/-- What is left of a path behind twelve segments, cut at the limit, may be any token. -/
theorem matchesThrough_of_rest (hlower : LowersText py.lower) (hs : signatures.Unmarked)
    (htoken : IsToken token.toList) (hline : '\n' ∉ token.toList) (hcategory : category ≠ "")
    (hstored : signatures.scannerSegments.get? token = some category)
    (hhead : token.toList.head? ≠ some '/') (hresolved : Resolved ('/' :: token.toList))
    (htelling : patterns.decisiveCategories.contains category = true ∨
      isAsset py (signatures.inForce py patterns) token.toList = false) :
    MatchesThrough py patterns signatures token category := by
  have hlen : token.toList.length ≤ 120 := htoken.length_le
  obtain ⟨n, hn⟩ : ∃ n, n = 176 - token.toList.length := ⟨_, rfl⟩
  have hn0 : n ≠ 0 := by omega
  obtain ⟨path, hpath⟩ : ∃ path, path = joined (marks n) ++ '/' :: token.toList := ⟨_, rfl⟩
  have hlength : path.length = maxPathLength := by
    rw [hpath, List.length_append, length_joined_marks, List.length_cons, maxPathLength]
    omega
  have hliteral : ∀ c ∈ path, isLiteral c = true := by
    have hmarks : ∀ c ∈ joined (marks n), isLiteral c = true := by
      intro c hc
      obtain ⟨s, hmem, hc⟩ := List.mem_flatMap.mp hc
      obtain ⟨k, -, rfl⟩ := of_mem_marks hn0 hmem
      rcases List.mem_cons.mp hc with rfl | hc
      · decide
      · rw [List.eq_of_mem_replicate hc]
        decide
    rw [hpath]
    intro c hc
    rcases List.mem_append.mp hc with hc | hc
    · exact hmarks c hc
    · rcases List.mem_cons.mp hc with rfl | hc
      · decide
      · exact htoken.literal hline c hc
  have htarget : normalizeTarget py (path ++ ['.', '.', '.']) = .ok path := by
    rw [normalizeTarget_of_resolved, ← hlength, List.take_left]
    · rw [hpath]
      rfl
    · intro c hc
      rcases List.mem_append.mp hc with hc | hc
      · exact hliteral c hc
      · have hdots : ['.', '.', '.'].all isLiteral = true := by decide
        exact List.all_eq_true.mp hdots c hc
    · intro s hskipped hb
      have hshape : path ++ ['.', '.', '.'] ++ ['/'] =
          joined (marks n) ++ '/' :: (token.toList ++ ['.', '.', '.', '/']) := by
        rw [hpath]
        simp
      rw [hshape] at hb
      have hmarks : ∀ t ∈ marks n, '/' ∉ t ∧ t ∉ skipped := by
        intro t ht
        obtain ⟨k, hk, rfl⟩ := of_mem_marks hn0 ht
        exact mark_proper hk
      obtain hmem | hb := mem_of_between_infix (slash_not_mem_skipped hskipped) (fun t ht => (hmarks t ht).1) hb
      · exact (hmarks s hmem).2 hskipped
      · rw [← List.cons_append] at hb
        exact hresolved s hskipped (between_infix_dots hskipped hb)
  obtain ⟨text, htext⟩ : ∃ text, path = '/' :: '!' :: text := ⟨_, hpath⟩
  have hsplit : (splitAtMost '/' 13 path).tail = marks n ++ token.toList :: [] := by
    have hcount : 13 = (marks n).length + 1 + 0 := by simp [marks]
    have hparts : ∀ s ∈ marks n, '/' ∉ s := by
      intro s hmem
      obtain ⟨k, hk, rfl⟩ := of_mem_marks hn0 hmem
      exact (mark_proper hk).1
    rw [hpath, ← List.nil_append (joined (marks n)), hcount, splitAtMost_joined (by simp) hparts]
    rfl
  refine matchesThrough_iff.mpr ⟨_, path, htarget, ?_⟩
  refine pathRule_of_marks hlower hs hhead htoken.ne_nil hcategory hstored (by simp [htext]) hsplit
    (fun s hmem => of_mem_marks hn0 hmem) nofun ?_
  refine htelling.imp_right fun hasset => ?_
  have hascii : ∀ c ∈ path, isAscii c = true := fun c hc => isAscii_of_isLiteral (hliteral c hc)
  rw [spared, Bool.or_eq_false_iff]
  constructor
  · rw [hpath, isAsset_slash hlower, hasset]
  · rw [htext] at hascii ⊢
    exact isAuthenticationEndpoint_mark hlower hascii

theorem matchesThrough_of_canMatch (hlower : LowersText py.lower) (hs : signatures.Unmarked)
    (htoken : IsToken token.toList) (hcategory : category ≠ "")
    (hstored : stored (signatures.scannerSegments, signatures.scannerPaths) token = some category)
    (h : CanMatch py patterns signatures token category) :
    MatchesThrough py patterns signatures token category := by
  unfold CanMatch at h
  unfold stored at hstored
  split at h
  · rename_i hhead
    rw [if_pos hhead] at hstored
    exact matchesThrough_of_path htoken hhead hcategory hstored h
  · rename_i hhead
    rw [if_neg hhead] at hstored
    obtain ⟨hline, hresolved, hending⟩ := h
    by_cases hslash : '/' ∈ token.toList
    · exact matchesThrough_of_rest hlower hs htoken hline hcategory hstored hhead hresolved (hending hslash)
    · by_cases hproper : token.toList ∈ skipped
      · exact matchesThrough_of_rest hlower hs htoken hline hcategory hstored hhead hresolved
          (Or.inr (isAsset_skipped hlower hproper))
      · exact matchesThrough_of_segment hlower hs htoken hline hcategory hstored hslash hproper

/-! ### The signatures of an operator -/

theorem unmarked_published (hshipped : ∀ row : String × String,
      row ∈ shipped.segments.entries ∨ row ∈ shipped.paths.entries → '!' ∉ row.1.toList)
    (h : ∀ e ∈ overrides.added.entries, IsStored e) : (publishSignatures shipped overrides).Unmarked := by
  intro row hrow
  obtain hsegments | hpaths | hadded := mem_published hrow
  · exact hshipped row (Or.inl hsegments)
  · exact hshipped row (Or.inr hpaths)
  · intro hmark
    rcases (h row hadded).token.chars _ hmark with htoken | hstar | hline
    · exact absurd htoken (by decide)
    · exact absurd hstar (by decide)
    · exact absurd hline (by decide)

/-- Of the signatures an operator can store, those can match that have what it takes: the shipped
list leaves words for a target to put around them. -/
theorem signature_matches_iff (patterns : Patterns) (hlower : LowersText py.lower)
    (hshipped : ∀ row : String × String,
      row ∈ shipped.segments.entries ∨ row ∈ shipped.paths.entries → '!' ∉ row.1.toList)
    (h : validateOverrides values data = .ok overrides) (hadded : overrides.added.get? token = some category) :
    MatchesThrough py patterns (publishSignatures shipped overrides) token category ↔
      CanMatch py patterns (publishSignatures shipped overrides) token category := by
  have hall := isStored_of_validateOverrides h
  have hrow := hall _ (Dict.mem_entries.mpr hadded)
  constructor
  · exact canMatch_of_matchesThrough hlower hrow.token
  · exact matchesThrough_of_canMatch hlower (unmarked_published hshipped hall) hrow.token hrow.category
      (stored_published hadded)

end Match

/-! ### The built-in list -/

deriving instance DecidableEq for Overrides

/-- The tables the daemon starts with. -/
def builtinShipped : Shipped where
  segments := ⟨[(".env", "secrets"), (".env*", "secrets"), (".git", "vcs"), (".svn", "vcs"), (".hg", "vcs"),
    (".aws", "secrets"), (".ssh", "secrets"), (".DS_Store", "secrets"), ("phpmyadmin", "database-admin"),
    ("pma", "database-admin"), ("myadmin", "database-admin"), ("adminer.php", "database-admin"),
    ("wp-login.php", "wordpress"), ("wp-admin", "wordpress"), ("wp-content", "wordpress"),
    ("wp-includes", "wordpress"), ("xmlrpc.php", "wordpress"), ("server-status", "server-info"),
    ("server-info", "server-info"), ("phpinfo.php", "server-info"), ("actuator", "app-framework"),
    ("solr", "app-framework"), ("jenkins", "app-framework"), ("struts", "app-framework"),
    ("cgi-bin", "legacy-cgi"), ("vendor", "dependency"), ("backup.zip", "backup"), ("backup.sql", "backup"),
    ("backup.tar.gz", "backup"), ("database.sql", "backup"), ("dump.sql", "backup"), ("config.php", "config"),
    ("configuration.php", "config"), ("web.config", "config"), ("docker-compose.yml", "config"),
    ("id_rsa", "secrets")], by decide +kernel⟩
  paths := ⟨[("/.env", "secrets"), ("/.git/config", "vcs"), ("/.aws/credentials", "secrets"),
    ("/.ssh/id_rsa", "secrets")], by decide +kernel⟩
  queryRules := []
  userAgents := Dict.empty

theorem builtinShipped_unmarked : ∀ row : String × String,
    row ∈ builtinShipped.segments.entries ∨ row ∈ builtinShipped.paths.entries → '!' ∉ row.1.toList := by
  have hall : ∀ row ∈ builtinShipped.segments.entries ++ builtinShipped.paths.entries,
      '!' ∉ row.1.toList := by decide +kernel
  exact fun row hrow => hall row (List.mem_append.mpr hrow)

theorem lowersText_asciiPython : LowersText asciiPython.lower where
  lowered text := by
    change Lowered text (text.map Char.toLower)
    induction text with
    | nil => exact .nil
    | cons c text ih =>
      cases hc : isAscii c with
      | true => exact .ascii hc ih
      | false =>
        have hsame : c.toLower = c := by
          unfold Char.toLower
          refine dif_neg ?_
          rintro ⟨-, hZ⟩
          have hlt : c.toNat < 128 := lt_of_le_of_lt (show c.toNat ≤ 90 from hZ) (by decide)
          simp [isAscii, hlt] at hc
        have himage : ∀ d ∈ [c], isAscii d = true → d.isLower = true := by
          intro d hd
          rw [List.mem_singleton.mp hd, hc]
          simp
        rw [List.map_cons, hsame]
        exact .other hc (by simp) himage ih
  slash a b := by
    change (a ++ '/' :: b).map Char.toLower = a.map Char.toLower ++ '/' :: b.map Char.toLower
    rw [List.map_append, List.map_cons]
    rfl

def plainValues : ValueText where
  str _ := ""
  isZero _ := false

/-- A document with one rule of the operator. -/
def addedDocument (token : String) : Json := .obj [("added", .obj [(token, .str "custom")])]

def addedOverrides (token : String) : Overrides := ⟨⟨[(token, "custom")], List.nodup_singleton _⟩, []⟩

/-- Files kept aside, wherever they are: the prefix matches. -/
theorem signature_matches_prefix :
    MatchesThrough asciiPython noPatterns (publishSignatures builtinShipped (addedOverrides "old/copy-*"))
      "old/copy-*" "custom" := by
  have hvalid : validateOverrides plainValues (addedDocument "old/copy-*") = .ok (addedOverrides "old/copy-*") := by
    decide +kernel
  have hadded : (addedOverrides "old/copy-*").added.get? "old/copy-*" = some "custom" := by decide +kernel
  refine (signature_matches_iff noPatterns lowersText_asciiPython builtinShipped_unmarked hvalid hadded).mpr ?_
  unfold CanMatch
  rw [if_neg (by decide +kernel)]
  refine ⟨by decide +kernel, by decide +kernel, fun _ => Or.inr ?_⟩
  decide +kernel

/-- A path with a slash at its end is taken and never matches: no path ends in one. -/
theorem trailing_slash_never_matches :
    ¬ ∀ (py : Interpreter) (patterns : Patterns) (values : ValueText) (shipped : Shipped) (data : Json)
        (overrides : Overrides) (token category : String), LowersText py.lower →
      (∀ row : String × String,
        row ∈ shipped.segments.entries ∨ row ∈ shipped.paths.entries → '!' ∉ row.1.toList) →
      validateOverrides values data = .ok overrides → overrides.added.get? token = some category →
      MatchesThrough py patterns (publishSignatures shipped overrides) token category := by
  intro h
  have hvalid : validateOverrides plainValues (addedDocument "/files/") = .ok (addedOverrides "/files/") := by
    decide +kernel
  have hmatch := h asciiPython noPatterns plainValues builtinShipped _ _ "/files/" "custom"
    lowersText_asciiPython builtinShipped_unmarked hvalid (by decide +kernel)
  have hcan := canMatch_of_matchesThrough lowersText_asciiPython
    (isStored_of_validateOverrides hvalid ("/files/", "custom") (by decide +kernel)).token hmatch
  unfold CanMatch at hcan
  rw [if_pos (by decide +kernel)] at hcan
  exact absurd hcan (by decide +kernel)

end EasyHaProxy.Guardd
