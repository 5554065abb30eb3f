import Mathlib.Algebra.Order.BigOperators.Group.List
import Mathlib.Algebra.Order.Ring.Nat
import EasyHaProxy.Lib.Text
import EasyHaProxy.Guardd.Basic

/-! `normalize_path` where its argument is a path and nothing else: a value without a scheme and host, a
query, an escape or a control character, which is what the settings that store a path let through to it. -/
namespace EasyHaProxy.Guardd

open Text

/-- Runs of slashes read as one. -/
def collapseSlashes (text : List Char) : List Char :=
  text.foldr (fun c rest => if c = '/' ∧ rest.head? = some '/' then rest else c :: rest) []

/-- One segment of a path onto those before it. -/
def pushSegment (segments : List (List Char)) (segment : List Char) : List (List Char) :=
  if segment = [] ∨ segment = ['.'] then segments
  else if segment = ['.', '.'] then segments.dropLast
  else segments ++ [segment]

/-- The segments a path comes down to. -/
def pathSegments (value : List Char) : List (List Char) :=
  let text := collapseSlashes (strip value)
  let text := if text.head? = some '/' then text else '/' :: text
  (text.splitOn '/').foldl pushSegment []

def joinSegments (segments : List (List Char)) : List Char := '/' :: ['/'].intercalate segments

def normalizePath (value : String) : String :=
  if value = "" then "/"
  else String.ofList ((joinSegments (pathSegments value.toList)).take maxPathLength)

/-! ## What the segments are -/

theorem length_collapseSlashes_le (text : List Char) :
    (collapseSlashes text).length ≤ text.length := by
  induction text with
  | nil => rfl
  | cons c text ih =>
    unfold collapseSlashes at ih ⊢
    rw [List.foldr_cons]
    split
    · exact Nat.le_succ_of_le ih
    · simpa using ih

/-- What a list of segments takes up once each has its slash. -/
def segmentsLength (segments : List (List Char)) : Nat := (segments.map (·.length + 1)).sum

theorem length_joinSegments (segments : List (List Char)) :
    (joinSegments segments).length = if segments = [] then 1 else segmentsLength segments := by
  unfold joinSegments
  induction segments with
  | nil => rfl
  | cons s rest ih =>
    cases rest with
    | nil => simp [segmentsLength]
    | cons t rest =>
      simp only [List.length_cons, reduceCtorEq, if_false, segmentsLength, List.map_cons,
        List.sum_cons] at ih ⊢
      simp only [List.intercalate_cons_cons, List.length_append, List.length_cons,
        List.length_nil]
      omega

theorem segmentsLength_pushSegment (segments : List (List Char)) (s : List Char) :
    segmentsLength (pushSegment segments s) ≤ segmentsLength segments + (s.length + 1) := by
  unfold pushSegment
  split
  · omega
  split
  · have := ((List.dropLast_sublist segments).map (·.length + 1)).sum_le_sum
      (fun _ _ => Nat.zero_le _)
    unfold segmentsLength
    omega
  · simp [segmentsLength]

theorem segmentsLength_foldl (segments rest : List (List Char)) :
    segmentsLength (rest.foldl pushSegment segments) ≤
      segmentsLength segments + segmentsLength rest := by
  induction rest generalizing segments with
  | nil => simp [segmentsLength]
  | cons s rest ih =>
    have h1 := ih (pushSegment segments s)
    have h2 := segmentsLength_pushSegment segments s
    simp only [List.foldl_cons, segmentsLength, List.map_cons, List.sum_cons] at h1 h2 ⊢
    omega

/-- A segment is not empty and has no slash in it. -/
theorem mem_foldl_pushSegment {segments rest : List (List Char)} {s : List Char}
    (hs : ∀ t ∈ segments, t ≠ [] ∧ '/' ∉ t) (hr : ∀ t ∈ rest, '/' ∉ t)
    (h : s ∈ rest.foldl pushSegment segments) : s ≠ [] ∧ '/' ∉ s := by
  induction rest generalizing segments with
  | nil => exact hs s h
  | cons t rest ih =>
    rw [List.foldl_cons] at h
    refine ih ?_ (fun u hu => hr u (List.mem_cons_of_mem t hu)) h
    intro u hu
    unfold pushSegment at hu
    split at hu
    · exact hs u hu
    rename_i hne
    split at hu
    · exact hs u ((List.dropLast_sublist segments).subset hu)
    · rcases List.mem_append.mp hu with hu | hu
      · exact hs u hu
      · obtain rfl := List.mem_singleton.mp hu
        exact ⟨fun he => hne (Or.inl he), hr u List.mem_cons_self⟩

theorem slash_not_mem_splitOn {text s : List Char} (h : s ∈ text.splitOn '/') : '/' ∉ s := by
  induction text generalizing s with
  | nil =>
    rw [List.splitOn_nil] at h
    simp_all
  | cons c text ih =>
    rw [List.splitOn_cons_eq_if_modifyHead] at h
    split at h
    · rcases List.mem_cons.mp h with rfl | h
      · simp
      · exact ih h
    · rename_i hc
      cases hs : text.splitOn '/' with
      | nil => exact absurd hs (List.splitOn_ne_nil '/' text)
      | cons t rest =>
        rw [hs, List.modifyHead_cons] at h
        rcases List.mem_cons.mp h with rfl | h
        · have ht := ih (s := t) (by simp [hs])
          intro hm
          rcases List.mem_cons.mp hm with rfl | hm
          · simp at hc
          · exact ht hm
        · exact ih (by simp [hs, h])

/-! ## A canonical path is already as short as `normalize_path` makes it -/

variable {value : List Char}

theorem pathText_head (h : value.head? = some '/') :
    ∃ rest, collapseSlashes (strip value) = '/' :: rest ∧ rest.length < value.length := by
  obtain ⟨t, rfl⟩ : ∃ t, value = '/' :: t := by
    cases value with
    | nil => simp at h
    | cons c t => exact ⟨t, by simpa using h⟩
  have hd : ('/' :: t).dropWhile isSpace = '/' :: t := List.dropWhile_cons_of_neg (by decide)
  have hle : (strip ('/' :: t)).length ≤ t.length + 1 := length_trim_le
  have hne : strip ('/' :: t) ≠ [] := by
    unfold strip trim
    rw [hd, Ne, List.rdropWhile_eq_nil_iff]
    intro hall
    exact absurd (hall '/' List.mem_cons_self) (by decide)
  obtain ⟨c, u, hu⟩ := List.exists_cons_of_ne_nil hne
  have hc : c = '/' := by
    have hpre : strip ('/' :: t) <+: '/' :: t := by
      unfold strip trim
      rw [hd]
      exact List.rdropWhile_prefix _ _
    rw [hu, List.cons_prefix_cons] at hpre
    exact hpre.1
  rw [hu] at hle ⊢
  subst hc
  have hcol := length_collapseSlashes_le u
  simp only [List.length_cons] at hle ⊢
  unfold collapseSlashes at hcol ⊢
  rw [List.foldr_cons]
  split
  · rename_i hs
    obtain ⟨rest, hrest⟩ := List.head?_eq_some_iff.mp hs.2
    rw [hrest] at hcol ⊢
    exact ⟨rest, rfl, by simp only [List.length_cons] at hcol; omega⟩
  · exact ⟨_, rfl, by omega⟩

theorem length_joinSegments_pathSegments (h : value.head? = some '/') :
    (joinSegments (pathSegments value)).length ≤ value.length := by
  obtain ⟨rest, hrest, hlt⟩ := pathText_head h
  have hsplit : segmentsLength (rest.splitOn '/') = rest.length + 1 := by
    have hj := length_joinSegments (rest.splitOn '/')
    rw [if_neg (List.splitOn_ne_nil '/' rest), joinSegments, List.intercalate_splitOn] at hj
    simpa using hj.symm
  have hseg : segmentsLength (pathSegments value) ≤ rest.length + 1 := by
    have hf := segmentsLength_foldl [] (rest.splitOn '/')
    rw [hsplit] at hf
    have hcons : ('/' :: rest).splitOn '/' = [] :: rest.splitOn '/' := by
      rw [List.splitOn_cons_eq_if_modifyHead, if_pos (by simp)]
    unfold pathSegments
    rw [hrest]
    dsimp only
    rw [if_pos (by rfl), hcons, List.foldl_cons]
    simpa [pushSegment, segmentsLength] using hf
  rw [length_joinSegments]
  split <;> omega

theorem getLast_joinSegments {segments : List (List Char)} (hs : ∀ s ∈ segments, s ≠ [] ∧ '/' ∉ s)
    (hne : segments ≠ []) : ∃ c, (joinSegments segments).getLast? = some c ∧ c ≠ '/' := by
  unfold joinSegments
  induction segments with
  | nil => exact absurd rfl hne
  | cons s rest ih =>
    obtain ⟨hs0, hs1⟩ := hs s List.mem_cons_self
    cases rest with
    | nil =>
      refine ⟨s.getLast hs0, ?_, ?_⟩
      · rw [List.intercalate_singleton, List.getLast?_cons, List.getLast?_eq_some_getLast hs0]
        rfl
      · intro he
        exact hs1 (he ▸ List.getLast_mem hs0)
    | cons t rest =>
      obtain ⟨c, hc, hcne⟩ := ih (fun u hu => hs u (List.mem_cons_of_mem s hu)) (by simp)
      refine ⟨c, ?_, hcne⟩
      rw [List.intercalate_cons_cons, List.append_assoc, List.singleton_append,
        ← List.cons_append, List.getLast?_append, hc]
      rfl

theorem mem_pathSegments {s : List Char} (h : s ∈ pathSegments value) : s ≠ [] ∧ '/' ∉ s :=
  mem_foldl_pushSegment (by simp) (fun _ ht => slash_not_mem_splitOn ht) h

/-- `value.rstrip("/") or "/"`. -/
def rstripSlash (value : String) : String :=
  let text := value.toList.rdropWhile (· == '/')
  if text = [] then "/" else String.ofList text

theorem rstripSlash_of_canonical {path : String} (hlen : path.length ≤ maxPathLength)
    (hhead : path.toList.head? = some '/') (h : normalizePath path = path) :
    rstripSlash path = path := by
  have hne : path ≠ "" := by
    rintro rfl
    simp at hhead
  have hjoin : joinSegments (pathSegments path.toList) = path.toList := by
    have hle := length_joinSegments_pathSegments hhead
    rw [String.length_toList] at hle
    rw [normalizePath, if_neg hne, List.take_of_length_le (hle.trans hlen)] at h
    conv_rhs => rw [← h]
    rw [String.toList_ofList]
  unfold rstripSlash
  by_cases hs : pathSegments path.toList = []
  · have hp : path = "/" := by
      rw [hs] at hjoin
      rw [← String.toList_inj, ← hjoin]
      rfl
    subst hp
    decide
  · obtain ⟨c, hc, hcne⟩ := getLast_joinSegments (fun _ ht => mem_pathSegments ht) hs
    rw [hjoin] at hc
    have hself : path.toList.rdropWhile (· == '/') = path.toList := by
      rw [List.rdropWhile_eq_self_iff]
      intro hl
      rw [List.getLast?_eq_some_getLast hl, Option.some.injEq] at hc
      simp [hc, hcne]
    rw [hself, if_neg (by simpa using hne), String.ofList_toList]

end EasyHaProxy.Guardd
