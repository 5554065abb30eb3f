import EasyHaProxy.Lib.Pieces
import EasyHaProxy.Guardd.HostileLines
import EasyHaProxy.Guardd.Engine
import EasyHaProxy.Guardd.Score
import EasyHaProxy.Guardd.Signatures

/-! The text `_apply_enforcement` hands to `commit_ban`, what is stored of it, and what `_parse_ban_detail`
reads out of that. -/
namespace EasyHaProxy.Guardd

open Text Python

/-- `f"score={score} seconds={duration} [{', '.join(sorted(categories))}]"`. -/
def banDetail (score duration : Int) (categories : List String) : String :=
  "score=" ++ toString score ++ " seconds=" ++ toString duration ++ " [" ++
    ", ".intercalate (categories.insertionSort (· ≤ ·)) ++ "]"

/-- What `_parse_ban_detail` returns. -/
structure BanReason where
  score : Option Int
  categories : List String
  deriving DecidableEq, Repr

/-- The digits `\d+` finds behind the first `key` that has any. -/
def digitsAfter (py : Interpreter) (key : List Char) : List Char → Option (List Char)
  | [] => none
  | c :: rest =>
    if key <+: c :: rest ∧ ((c :: rest).drop key.length).takeWhile (fun d => (py.digit d).isSome) ≠ [] then
      some (((c :: rest).drop key.length).takeWhile fun d => (py.digit d).isSome)
    else digitsAfter py key rest

/-- The group of `\[([^\]]*)\]`. -/
def bracketed (text : List Char) : Option (List Char) :=
  match text.dropWhile (· != '[') with
  | [] => none
  | _ :: rest => if ']' ∈ rest then some (rest.takeWhile (· != ']')) else none

def reasonCategories (text : List Char) : List String :=
  match bracketed text with
  | none => []
  | some body => (pieces (· == ',') body).map String.ofList

def reasonScore (py : Interpreter) (text : List Char) : Except Raised (Option Int) :=
  match digitsAfter py ['s', 'c', 'o', 'r', 'e', '='] text with
  | none => .ok none
  | some digits => (py.int digits).map some

/-- `_parse_ban_detail`. -/
def parseBanDetail (py : Interpreter) (detail : String) : Except Raised BanReason :=
  if detail = "" then .ok ⟨none, []⟩
  else (reasonScore py detail.toList).map fun score => ⟨score, reasonCategories detail.toList⟩

def ReadsAscii (py : Interpreter) : Prop := ∀ c, asciiDigit c = true → py.digit c = some (c.toNat - '0'.toNat)

/-- A category name that is read back as it was written. -/
structure Readable (name : String) : Prop where
  clean : Clean (· == ',') name.toList
  unbracketed : ']' ∉ name.toList

/-! ## Numbers in the text -/

variable {py : Interpreter} {key pre body digits rest text : List Char} {score duration : Int}
  {categories : List String}

theorem asciiDigit_of_mem_toDigits {n : Nat} {c : Char} (h : c ∈ Nat.toDigits 10 n) : asciiDigit c = true := by
  have hd := Nat.isDigit_of_mem_toDigits (by decide) (by decide) h
  simpa [Char.isDigit, asciiDigit, Char.le_def] using hd

theorem toList_toString_nat (n : Nat) : (toString (n : Int)).toList = Nat.toDigits 10 n := Nat.toList_repr

theorem mem_toString_int {n : Int} {c : Char} (h : c ∈ (toString n).toList) :
    asciiDigit c = true ∨ c = '-' := by
  cases n with
  | ofNat n =>
    rw [show (toString (Int.ofNat n)).toList = Nat.toDigits 10 n from toList_toString_nat n] at h
    exact Or.inl (asciiDigit_of_mem_toDigits h)
  | negSucc n =>
    have hneg : (toString (Int.negSucc n)).toList = '-' :: Nat.toDigits 10 (n + 1) := by
      change ("-" ++ (n + 1).repr).toList = _
      rw [String.toList_append, Nat.toList_repr]
      rfl
    rw [hneg] at h
    rcases List.mem_cons.mp h with rfl | h
    · exact Or.inr rfl
    · exact Or.inl (asciiDigit_of_mem_toDigits h)

theorem digits_of_ascii (hpy : ReadsAscii py) (h : ∀ c ∈ digits, asciiDigit c = true) (hne : digits ≠ []) :
    py.digits digits = some (digits.map fun c => c.toNat - '0'.toNat) := by
  induction digits with
  | nil => exact absurd rfl hne
  | cons c digits ih =>
    have hc := hpy c (h c List.mem_cons_self)
    cases digits with
    | nil => simp [Interpreter.digits, hc]
    | cons d digits =>
      have hd : d ≠ '_' := (digit_plain_of_ascii (h d (by simp))).2.2.2
      have hrest := ih (fun e he => h e (List.mem_cons_of_mem c he)) (by simp)
      rw [Interpreter.digits.eq_4 _ _ _ (by simp) (by simp [hd]), hc, hrest]
      rfl

/-- `int` of the digits of a number that is short enough. -/
theorem int_toDigits (hpy : ReadsAscii py) {n : Nat} (hn : (Nat.toDigits 10 n).length ≤ maxStrDigits) :
    py.int (Nat.toDigits 10 n) = .ok n := by
  have hall : ∀ c ∈ Nat.toDigits 10 n, asciiDigit c = true := fun c hc => asciiDigit_of_mem_toDigits hc
  have hplain : ∀ c ∈ Nat.toDigits 10 n, isSpace c = false ∧ c ≠ '+' ∧ c ≠ '-' ∧ c ≠ '_' :=
    fun c hc => digit_plain_of_ascii (hall c hc)
  have hstrip : strip (Nat.toDigits 10 n) = Nat.toDigits 10 n :=
    strip_eq_self (fun c hc => (hplain c (List.mem_of_mem_head? hc)).1)
      (fun c hc => (hplain c (List.mem_of_getLast? hc)).1)
  have hvalue := Nat.ofDigitChars_ten_toDigits (n := n)
  rw [Nat.ofDigitChars_eq_foldl] at hvalue
  have hdigits := digits_of_ascii hpy hall Nat.toDigits_ne_nil
  unfold Interpreter.int
  rw [hstrip]
  cases hd : Nat.toDigits 10 n with
  | nil => exact absurd hd Nat.toDigits_ne_nil
  | cons c ds =>
    have hc := hplain c (hd ▸ List.mem_cons_self)
    rw [hd] at hdigits hvalue hn
    split
    rename_i sign number heq
    split at heq
    · rename_i he
      exact absurd (List.cons.inj he).1 hc.2.2.1
    · rename_i he
      exact absurd (List.cons.inj he).1 hc.2.1
    · obtain ⟨rfl, rfl⟩ := Prod.mk.inj heq
      rw [hdigits]
      dsimp only
      rw [if_neg (by simpa using hn), List.foldl_map, hvalue, one_mul]

theorem takeWhile_append_cons {p : Char → Bool} {c : Char} (h : ∀ d ∈ digits, p d = true) (hc : p c = false) :
    (digits ++ c :: rest).takeWhile p = digits := by
  rw [List.takeWhile_append_of_pos h, List.takeWhile_cons_of_neg (by simp [hc]), List.append_nil]

theorem digitsAfter_key (hkey : key ≠ []) (hne : digits ≠ []) (h : ∀ d ∈ digits, (py.digit d).isSome = true)
    {c : Char} (hc : (py.digit c).isSome = false) :
    digitsAfter py key (key ++ (digits ++ c :: rest)) = some digits := by
  obtain ⟨k, key, rfl⟩ := List.exists_cons_of_ne_nil hkey
  have htail : ((k :: key) ++ (digits ++ c :: rest)).drop (k :: key).length = digits ++ c :: rest :=
    List.drop_left
  rw [List.cons_append] at htail ⊢
  rw [digitsAfter, htail, takeWhile_append_cons h hc, if_pos ⟨⟨_, rfl⟩, hne⟩]

theorem digit_blank (py : Interpreter) : (py.digit ' ').isSome = false := by
  by_contra h
  rw [Bool.not_eq_false] at h
  exact absurd (py.digit_plain ' ' h).1 (by decide)

/-! ## The brackets -/

theorem bracketed_eq_none (h : ']' ∉ text) : bracketed text = none := by
  unfold bracketed
  split
  · rfl
  · rename_i c rest heq
    have hsub : rest ⊆ text := fun d hd =>
      (List.dropWhile_suffix _).mem (heq ▸ List.mem_cons_of_mem c hd)
    rw [if_neg fun hr => h (hsub hr)]

theorem bracketed_eq_some (h : bracketed text = some body) : ']' ∈ text ∧ ']' ∉ body ∧ body ⊆ text := by
  unfold bracketed at h
  split at h
  · cases h
  · rename_i c rest heq
    have hsub : rest ⊆ text := fun d hd =>
      (List.dropWhile_suffix _).mem (heq ▸ List.mem_cons_of_mem c hd)
    split at h
    · rename_i hr
      obtain rfl := Option.some.inj h
      refine ⟨hsub hr, fun hmem => ?_, fun d hd => hsub ((List.takeWhile_prefix _).mem hd)⟩
      simpa using List.mem_takeWhile_imp hmem
    · cases h

theorem bracketed_append (hpre : '[' ∉ pre) (hbody : ']' ∉ body) :
    bracketed (pre ++ '[' :: (body ++ [']'])) = some body := by
  have hdrop : (pre ++ '[' :: (body ++ [']'])).dropWhile (· != '[') = '[' :: (body ++ [']']) := by
    rw [List.dropWhile_append_of_pos fun c hc => by simpa using fun he : c = '[' => hpre (he ▸ hc),
      List.dropWhile_cons_of_neg (by simp)]
  unfold bracketed
  rw [hdrop]
  dsimp only
  rw [if_pos (by simp), takeWhile_append_cons (fun c hc => by simpa using fun he : c = ']' => hbody (he ▸ hc)) (by simp)]

/-- Names that come out of the brackets can be read back. -/
theorem readable_of_mem_reasonCategories {name : String} (h : name ∈ reasonCategories text) :
    Readable name ∧ ']' ∈ text := by
  unfold reasonCategories at h
  split at h
  · cases h
  · rename_i body hb
    obtain ⟨hmem, hnot, hsub⟩ := bracketed_eq_some hb
    obtain ⟨piece, hpiece, rfl⟩ := List.mem_map.mp h
    obtain ⟨hclean, hin⟩ := clean_of_mem_pieces hpiece
    refine ⟨⟨by simpa using hclean, fun hc => hnot (hin _ (by simpa using hc))⟩, hmem⟩

/-! ## What is stored -/

/-- The names as they stand between the brackets. -/
def joinedNames (categories : List String) : List Char :=
  [',', ' '].intercalate ((categories.insertionSort (· ≤ ·)).map String.toList)

/-- The text up to the opening bracket. -/
def opening (score duration : Int) : List Char :=
  ['s', 'c', 'o', 'r', 'e', '='] ++ ((toString score).toList ++
    [' ', 's', 'e', 'c', 'o', 'n', 'd', 's', '='] ++ (toString duration).toList ++ [' '])

theorem toList_banDetail : (banDetail score duration categories).toList =
    opening score duration ++ '[' :: (joinedNames categories ++ [']']) := by
  have hsep : ", ".toList = [',', ' '] := rfl
  have hkey : "score=".toList = ['s', 'c', 'o', 'r', 'e', '='] := rfl
  have hmid : " seconds=".toList = [' ', 's', 'e', 'c', 'o', 'n', 'd', 's', '='] := rfl
  have hopen : " [".toList = [' ', '['] := rfl
  have hclose : "]".toList = [']'] := rfl
  simp only [banDetail, String.toList_append, String.toList_intercalate, opening, joinedNames, hkey, hsep, hmid, hopen, hclose,
    List.append_assoc, List.cons_append, List.nil_append]

theorem not_mem_opening {c : Char} (hd : asciiDigit c = false) (hm : c ≠ '-') (hs : c ≠ ' ')
    (hkey : c ∉ ['s', 'c', 'o', 'r', 'e', '=']) (hkey' : c ∉ [' ', 's', 'e', 'c', 'o', 'n', 'd', 's', '=']) :
    c ∉ opening score duration := by
  have hint : ∀ n : Int, c ∉ (toString n).toList := by
    intro n h
    rcases mem_toString_int h with h | h
    · rw [hd] at h
      cases h
    · exact hm h
  rw [opening, List.mem_append, List.mem_append, List.mem_append, List.mem_append, List.mem_singleton]
  rintro (h | ((h | h) | h) | h)
  · exact hkey h
  · exact hint score h
  · exact hkey' h
  · exact hint duration h
  · exact hs h

/-- The detail in the row `commit_ban` writes. -/
theorem detail_commitBan (db : Database) (id : Nat) (ip : Ip) (till code now : Int) (detail : String) :
    ((db.commitBan id ip till code now detail).events.getLast?.map (·.detail)) =
      some (truncate maxPathLength detail) := by
  rw [Database.events_commitBan, Database.events_recordEvents_singleton, List.getLast?_concat]
  rfl

/-- The names are read back when there are none, or when nothing was cut and each is readable. -/
theorem reasonCategories_take : reasonCategories (((banDetail score duration categories).toList).take maxPathLength) =
      categories.insertionSort (· ≤ ·) ↔
    categories = [] ∨ (banDetail score duration categories).toList.length ≤ maxPathLength ∧
      ∀ name ∈ categories, Readable name := by
  have hopen : '[' ∉ opening score duration := not_mem_opening (by decide) (by decide) (by decide) (by decide) (by decide)
  have hclose : ']' ∉ opening score duration := not_mem_opening (by decide) (by decide) (by decide) (by decide) (by decide)
  have hjoined : (∀ name ∈ categories, ']' ∉ name.toList) → ']' ∉ joinedNames categories := by
    intro h hc
    rcases mem_intercalate hc with hc | ⟨n, hn, hc⟩
    · exact absurd hc (by decide)
    · obtain ⟨name, hname, rfl⟩ := List.mem_map.mp hn
      exact h name ((List.mem_insertionSort _).mp hname) hc
  -- A cut takes the closing bracket away.
  have hcut : (∀ name ∈ categories, ']' ∉ name.toList) → maxPathLength < (banDetail score duration categories).toList.length →
      ']' ∉ ((banDetail score duration categories).toList).take maxPathLength := by
    intro h hlen hc
    rw [toList_banDetail] at hlen hc
    have hsplit : opening score duration ++ '[' :: (joinedNames categories ++ [']']) =
        (opening score duration ++ '[' :: joinedNames categories) ++ [']'] := by simp
    rw [hsplit, List.length_append, List.length_singleton] at hlen
    rw [hsplit, List.take_append_of_le_length (by omega)] at hc
    have hmem := List.mem_of_mem_take hc
    simp only [List.mem_append, List.mem_cons] at hmem
    rcases hmem with hmem | hmem | hmem
    · exact hclose hmem
    · exact absurd hmem (by decide)
    · exact hjoined h hmem
  constructor
  · intro heq
    by_cases hnil : categories = []
    · exact Or.inl hnil
    have hread : ∀ name ∈ categories, Readable name ∧
        ']' ∈ ((banDetail score duration categories).toList).take maxPathLength := fun name hname =>
      readable_of_mem_reasonCategories (heq ▸ (List.mem_insertionSort _).mpr hname)
    refine Or.inr ⟨?_, fun name hname => (hread name hname).1⟩
    by_contra hlen
    obtain ⟨name, hname⟩ := List.exists_mem_of_ne_nil _ hnil
    exact hcut (fun n hn => (hread n hn).1.unbracketed) (not_le.mp hlen) (hread name hname).2
  · intro h
    by_cases hlen : (banDetail score duration categories).toList.length ≤ maxPathLength
    · have hread : ∀ name ∈ categories, Readable name := by
        rcases h with rfl | ⟨-, h⟩
        · simp
        · exact h
      rw [List.take_of_length_le hlen, toList_banDetail, reasonCategories,
        bracketed_append hopen (hjoined fun name hname => (hread name hname).unbracketed)]
      dsimp only
      rw [joinedNames, pieces_intercalate (by decide) (List.forall_mem_singleton.mpr (by decide)), List.map_map]
      · simp [Function.comp_def]
      · intro n hn
        obtain ⟨name, hname, rfl⟩ := List.mem_map.mp hn
        exact (hread name ((List.mem_insertionSort _).mp hname)).clean
    · obtain rfl : categories = [] := h.resolve_right fun h => hlen h.1
      rw [reasonCategories, bracketed_eq_none (hcut (by simp) (not_le.mp hlen))]
      rfl

section Row

variable (hpy : ReadsAscii py)
include hpy

/-- However much of the text is cut, the score is in what is left. -/
theorem reasonScore_take {n : Nat} (hn : n ≤ 100) :
    reasonScore py (((banDetail n duration categories).toList).take maxPathLength) = .ok (some (n : Int)) := by
  have hlen : (Nat.toDigits 10 n).length ≤ 3 := (Nat.length_toDigits_le_iff (by decide) (by decide)).mpr (by omega)
  have hdigits : ∀ d ∈ Nat.toDigits 10 n, (py.digit d).isSome = true := fun d hd => by
    simp [hpy d (asciiDigit_of_mem_toDigits hd)]
  obtain ⟨rest, hrest⟩ : ∃ rest, ((banDetail n duration categories).toList).take maxPathLength =
      ['s', 'c', 'o', 'r', 'e', '='] ++ (Nat.toDigits 10 n ++ ' ' :: rest) := by
    obtain ⟨after, hafter⟩ : ∃ after, (banDetail n duration categories).toList =
        ['s', 'c', 'o', 'r', 'e', '='] ++ (Nat.toDigits 10 n ++ ' ' :: after) := by
      rw [toList_banDetail, opening, toList_toString_nat]
      simp only [List.append_assoc, List.cons_append, List.nil_append]
      exact ⟨_, rfl⟩
    rw [hafter]
    refine ⟨after.take (maxPathLength - 6 - (Nat.toDigits 10 n).length - 1), ?_⟩
    have hkey : ['s', 'c', 'o', 'r', 'e', '='].length = 6 := rfl
    rw [List.take_append, List.take_append, hkey, List.take_of_length_le (by simp [maxPathLength]),
      List.take_of_length_le (by unfold maxPathLength; omega)]
    obtain ⟨k, hk⟩ : ∃ k, maxPathLength - 6 - (Nat.toDigits 10 n).length = k + 1 :=
      ⟨193 - (Nat.toDigits 10 n).length, by unfold maxPathLength; omega⟩
    rw [hk, List.take_succ_cons, Nat.add_sub_cancel]
  rw [hrest, reasonScore, digitsAfter_key (by decide) Nat.toDigits_ne_nil hdigits (digit_blank py)]
  dsimp only
  rw [int_toDigits hpy (by unfold maxStrDigits; omega)]
  rfl

theorem parse_commitBan (db : Database) (id : Nat) (ip : Ip) (till code now : Int) {score : Nat}
    (hscore : score ≤ 100) (duration : Int) (categories : List String) :
    ((db.commitBan id ip till code now (banDetail score duration categories)).events.getLast?.map
        fun e => parseBanDetail py e.detail) = some (.ok ⟨some score,
      reasonCategories (((banDetail score duration categories).toList).take maxPathLength)⟩) := by
  have hne : truncate maxPathLength (banDetail score duration categories) ≠ "" := by
    intro he
    have hlist := congrArg String.toList he
    rw [truncate, String.toList_ofList, toList_banDetail, opening] at hlist
    exact absurd hlist (by simp [maxPathLength])
  have hmap := congrArg (Option.map (parseBanDetail py))
    (detail_commitBan db id ip till code now (banDetail score duration categories))
  rw [Option.map_map, Option.map_some] at hmap
  refine hmap.trans (congrArg some ?_)
  rw [parseBanDetail, if_neg hne, truncate, String.toList_ofList, reasonScore_take hpy hscore]
  rfl

/-- The row `commit_ban` writes is read back as the score and the categories of the ban exactly when
there were no categories, or the whole text fits the column and every name is readable. -/
theorem ban_detail_reads_back_iff (db : Database) (id : Nat) (ip : Ip) (till code now : Int) {score : Nat}
    (hscore : score ≤ 100) (duration : Int) (categories : List String) :
    ((db.commitBan id ip till code now (banDetail score duration categories)).events.getLast?.map
        fun e => parseBanDetail py e.detail) =
      some (.ok ⟨some score, categories.insertionSort (· ≤ ·)⟩) ↔
    categories = [] ∨ (banDetail score duration categories).toList.length ≤ maxPathLength ∧
      ∀ name ∈ categories, Readable name := by
  rw [parse_commitBan hpy db id ip till code now hscore, ← reasonCategories_take]
  simp

end Row

theorem readsAscii_asciiPython : ReadsAscii asciiPython := fun _ hc => if_pos hc

theorem ban_detail_reads_back_vcs :
    ((Database.commitBan 1 "192.0.2.1" 87400 40 1000 (banDetail (90 : Nat) 86400 ["vcs", "secrets"]) {}).events.getLast?.map
        fun e => parseBanDetail asciiPython e.detail) =
      some (.ok ⟨some (90 : Nat), ["vcs", "secrets"].insertionSort (· ≤ ·)⟩) ↔
    ["vcs", "secrets"] = [] ∨ (banDetail (90 : Nat) 86400 ["vcs", "secrets"]).toList.length ≤ maxPathLength ∧
      ∀ name ∈ ["vcs", "secrets"], Readable name :=
  ban_detail_reads_back_iff readsAscii_asciiPython {} 1 "192.0.2.1" 87400 40 1000 (by decide) 86400 _

/-! ## The names there are -/

def nameChar (c : Char) : Bool := isAlpha c || asciiDigit c || c == '_' || c == '-'

theorem plain_of_nameChar {c : Char} (h : nameChar c = true) : isSpace c = false ∧ c ≠ ',' ∧ c ≠ ']' := by
  have hspace : isSpace c = false := by
    by_contra hs
    rw [Bool.not_eq_false, isSpace, Bool.or_eq_true, decide_eq_true_eq] at hs
    rcases hs with hs | hs
    · have hno : ['\t', '\n', '\x0b', '\x0c', '\r', '\x1c', '\x1d', '\x1e', '\x1f', ' ', '\x85', '\xa0',
        '\u1680', '\u2028', '\u2029', '\u202f', '\u205f', '\u3000'].all (fun c => !nameChar c) = true := by decide
      have := List.all_eq_true.mp hno c hs
      rw [h] at this
      cases this
    · simp only [nameChar, isAlpha, asciiDigit, Bool.or_eq_true, Bool.and_eq_true, decide_eq_true_eq, beq_iff_eq,
        Char.le_def, UInt32.le_iff_toNat_le] at h hs
      have hlow : 0x2000 ≤ c.val.toNat := hs.1
      rcases h with (((⟨-, h⟩ | ⟨-, h⟩) | ⟨-, h⟩) | rfl) | rfl
      · have : c.val.toNat ≤ 122 := h
        omega
      · have : c.val.toNat ≤ 90 := h
        omega
      · have : c.val.toNat ≤ 57 := h
        omega
      · exact absurd hlow (by decide)
      · exact absurd hlow (by decide)
  refine ⟨hspace, ?_, ?_⟩ <;>
  · rintro rfl
    exact absurd h (by decide)

theorem readable_of_chars {name : String} (hne : name.toList ≠ []) (h : ∀ c ∈ name.toList, nameChar c = true) :
    Readable name := by
  refine ⟨⟨hne, strip_eq_self (fun c hc => ?_) (fun c hc => ?_), fun c hc => ?_⟩, fun hc => ?_⟩
  · exact (plain_of_nameChar (h c (List.mem_of_mem_head? hc))).1
  · exact (plain_of_nameChar (h c (List.mem_of_getLast? hc))).1
  · simpa using (plain_of_nameChar (h c hc)).2.1
  · exact (plain_of_nameChar (h _ hc)).2.2 rfl

theorem readable_eventType (t : EventType) : Readable t.text := by
  have h : t.text.toList ≠ [] ∧ t.text.toList.all nameChar = true := by cases t <;> decide +kernel
  exact readable_of_chars h.1 (List.all_eq_true.mp h.2)

theorem nameChar_of_categoryChar {c : Char} (h : categoryChar c = true) : nameChar c = true := by
  simp only [categoryChar, isAlnum, Bool.or_eq_true] at h
  simp only [nameChar, isAlpha, asciiDigit, Bool.or_eq_true]
  rcases h with (h | h) | h
  · exact Or.inl (Or.inl (Or.inl (Or.inl h)))
  · exact Or.inl (Or.inl (Or.inr h))
  · exact Or.inr h

variable {values : ValueText}

/-- The category of an operator's rule that is let through. -/
theorem readable_of_addRule {added added' : Dict String String} {row : String × Json}
    (h : addRule values added row = .ok added') (ha : ∀ e ∈ added.entries, Readable e.2) :
    ∀ e ∈ added'.entries, Readable e.2 := by
  unfold addRule at h
  dsimp only at h
  split at h
  · rename_i hname
    obtain ⟨token, -, rfl⟩ : ∃ token, validateToken row.1 = .ok token ∧
        added.set token (categoryName values row.2) = added' := by
      cases htoken : validateToken row.1 with
      | error e =>
        rw [htoken] at h
        cases h
      | ok token =>
        rw [htoken] at h
        exact ⟨token, rfl, Except.ok.inj h⟩
    have hstripped : (categoryName values row.2).toList.getLast? ≠ some '\n' := by
      unfold categoryName
      dsimp only
      split
      · decide
      · rw [String.toList_ofList]
        exact getLast?_strip _
    have hchars : ∀ c ∈ (categoryName values row.2).toList, categoryChar c = true := by
      simp only [wholeLine, if_neg hstripped, Bool.and_eq_true, List.all_eq_true] at hname
      exact hname.2
    rintro ⟨t, category⟩ he
    rcases Dict.mem_entries_set.mp he with ⟨rfl, rfl⟩ | ⟨-, he⟩
    · exact readable_of_chars (of_wholeLine hname).1 fun c hc => nameChar_of_categoryChar (hchars c hc)
    · exact ha _ he
  · cases h

theorem readable_of_foldlM {added added' : Dict String String} {rows : List (String × Json)}
    (h : rows.foldlM (addRule values) added = .ok added') (ha : ∀ e ∈ added.entries, Readable e.2) :
    ∀ e ∈ added'.entries, Readable e.2 := by
  induction rows generalizing added with
  | nil =>
    obtain rfl := Except.ok.inj h
    exact ha
  | cons row rows ih =>
    rw [List.foldlM_cons] at h
    obtain ⟨next, hnext, h⟩ := Validate.bind_eq_ok.mp h
    exact ih h (readable_of_addRule hnext ha)

/-- Every category an operator can name. -/
theorem readable_of_validateOverrides {data : Json} {overrides : Overrides}
    (h : validateOverrides values data = .ok overrides) : ∀ e ∈ overrides.added.entries, Readable e.2 := by
  unfold validateOverrides at h
  split at h
  · split at h
    · split at h
      · cases h
      · obtain ⟨added, hadded, h⟩ := Validate.bind_eq_ok.mp h
        obtain ⟨disabled, -, h⟩ := Validate.bind_eq_ok.mp h
        obtain rfl := Except.ok.inj h
        exact readable_of_foldlM hadded nofun
    · cases h
  · cases h

section Scored

variable {policy : ScoringPolicy} {now : Int} {events : List EventRow} {name : String}

theorem mem_keys_weighEvent {acc : Weighing} {e : EventRow}
    (h : name ∈ (policy.weighEventBy nearest now acc e).perCategory.keys) : name ∈ acc.perCategory.keys ∨ e.counted = name := by
  unfold ScoringPolicy.weighEventBy at h
  dsimp only at h
  split at h
  · exact Or.inl h
  · split at h
    · exact Or.inl h
    · split at h
      · exact Or.inl h
      · obtain ⟨⟨k, v⟩, hkv, rfl⟩ := List.mem_map.mp h
        rcases Dict.mem_entries_set.mp hkv with ⟨rfl, -⟩ | ⟨-, hkv⟩
        · exact Or.inr rfl
        · exact Or.inl (List.mem_map.mpr ⟨_, hkv, rfl⟩)

theorem counted_of_mem_categories (h : name ∈ (policy.scoreEvents now events).categories.keys) :
    ∃ e ∈ events, e.counted = name := by
  have hfold : ∀ acc : Weighing, name ∈ (events.foldl (policy.weighEventBy nearest now) acc).perCategory.keys →
      name ∈ acc.perCategory.keys ∨ ∃ e ∈ events, e.counted = name := by
    clear h
    induction events with
    | nil => exact fun acc h => Or.inl h
    | cons e events ih =>
      intro acc h
      rcases ih _ h with h | ⟨f, hf, hname⟩
      · rcases mem_keys_weighEvent h with h | h
        · exact Or.inl h
        · exact Or.inr ⟨e, List.mem_cons_self, h⟩
      · exact Or.inr ⟨f, List.mem_cons_of_mem e hf, hname⟩
  have hkeys : name ∈ (policy.weighBy nearest now events).perCategory.keys := by
    obtain ⟨⟨k, v⟩, hkv, rfl⟩ := List.mem_map.mp h
    obtain ⟨entry, hentry, heq⟩ := List.mem_map.mp hkv
    exact List.mem_map.mpr ⟨entry, hentry, (Prod.mk.inj heq).1⟩
  exact (hfold {} hkeys).resolve_left (by simp [Dict.keys, Dict.empty])

/-- With readable names it is the length alone that decides. -/
theorem reasonCategories_scored (h : ∀ e ∈ events, Readable e.counted) :
    reasonCategories (((banDetail score duration (policy.scoreEvents now events).categories.keys).toList).take
        maxPathLength) = (policy.scoreEvents now events).categories.keys.insertionSort (· ≤ ·) ↔
      (policy.scoreEvents now events).categories.keys = [] ∨
        (banDetail score duration (policy.scoreEvents now events).categories.keys).toList.length ≤ maxPathLength := by
  have hread : ∀ name ∈ (policy.scoreEvents now events).categories.keys, Readable name := by
    intro name hname
    obtain ⟨e, he, rfl⟩ := counted_of_mem_categories hname
    exact h e he
  rw [reasonCategories_take, and_iff_left hread]

end Scored

/-- The shipped categories a wide scan goes through. -/
def shippedNames : List String :=
  ["ai-endpoint", "app-framework", "backup", "cloud-credentials", "config", "container-api", "database-admin",
    "dependency", "known-exploit", "legacy-cgi", "rce-probe", "secrets", "server-info", "shell", "vcs", "wordpress"]

def wideScan : List EventRow :=
  shippedNames.map fun category => { ts := 1000, eventType := "SCANNER_PATH", category }

/-- A scan through sixteen of the shipped categories: none of them comes back. -/
theorem wide_scan_reads_back_nothing :
    ¬ ∀ (policy : ScoringPolicy) (now : Int) (events : List EventRow) (duration : Int),
      (∀ name ∈ (policy.scoreEvents now events).categories.keys, Readable name) →
      ((Database.commitBan 1 "192.0.2.1" (now + duration) adaptiveBanCode now
          (banDetail (policy.scoreEvents now events).score duration
            (policy.scoreEvents now events).categories.keys) {}).events.getLast?.map
          fun e => parseBanDetail asciiPython e.detail) =
        some (.ok ⟨some (policy.scoreEvents now events).score,
          (policy.scoreEvents now events).categories.keys.insertionSort (· ≤ ·)⟩) := by
  intro h
  have hkeys : ((ScoringPolicy.inForce .u02).scoreEvents 1010 wideScan).categories.keys = shippedNames := by
    decide +kernel
  have hscore : ((ScoringPolicy.inForce .u02).scoreEvents 1010 wideScan).score = ((100 : Nat) : Int) := by
    decide +kernel
  have hread := h (.inForce .u02) 1010 wideScan 3600
  rw [hkeys, hscore, parse_commitBan readsAscii_asciiPython {} 1 "192.0.2.1" (1010 + 3600) adaptiveBanCode 1010
    (by decide)] at hread
  have hall : shippedNames.all (fun name => decide (name.toList ≠ []) && name.toList.all nameChar) = true := by
    decide +kernel
  have hback := hread fun name hname => by
    have hn := List.all_eq_true.mp hall name hname
    rw [Bool.and_eq_true, decide_eq_true_eq] at hn
    exact readable_of_chars hn.1 (List.all_eq_true.mp hn.2)
  simp only [Option.some.injEq, Except.ok.injEq, BanReason.mk.injEq] at hback
  rcases reasonCategories_take.mp hback.2 with hnil | ⟨hlen, -⟩
  · cases hnil
  · rw [toList_banDetail] at hlen
    exact absurd hlen (by decide +kernel)

end EasyHaProxy.Guardd
