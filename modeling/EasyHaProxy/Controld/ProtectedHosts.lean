import EasyHaProxy.Controld.ControlPlane

/-! HAProxy takes every line of one ACL name, the daemon the last statement its pattern finds. Over whole
lines the two say the same exactly when the last line names all the others do. -/
namespace EasyHaProxy.Controld

open Text

/-! ## The lines -/

/-- The words of `acl <name> hdr(host) -i ...`: the service and what comes after. -/
def aclLine : List (List Char) → Option (ControlPlaneService × List (List Char))
  | a :: n :: h :: i :: values =>
    if a = aclWord ∧ h = hdrHost ∧ i = dashI then (ControlPlaneService.ofAcl n).map (·, values) else none
  | _ => none

section Domains

variable (py : PyText)

def aclLines (raw : Bytes) : List (ControlPlaneService × List (List Char)) :=
  ((decodeUtf8 raw).map fun text => (text.splitOn '\n').filterMap fun line =>
    (aclLine (words line)).map fun m => (m.1, domainsOf py m.2)).getD []

def protectedDomains (raw : Bytes) (s : ControlPlaneService) : Set (List Char) :=
  { d | ∃ line ∈ aclLines py raw, line.1 = s ∧ d ∈ line.2 }

end Domains

/-- What the last statement of a name that names any domain names. -/
def lastDomains (statements : List (ControlPlaneService × List (List Char))) (s : ControlPlaneService) :
    List (List Char) :=
  ((statements.filter fun m => m.1 = s && m.2 ≠ []).getLast?.map Prod.snd).getD []

/-- The protected hosts are the same in both configurations, one at most for each name, and
those the checks name. -/
structure HostsUnchanged (py : PyText) (previous candidate : Bytes) (checks : ControlPlaneChecks) : Prop where
  same : ∀ s, protectedDomains py previous s = protectedDomains py candidate s
  one : ∀ s, (protectedDomains py candidate s).Subsingleton
  named : ∀ s d, (∃ c ∈ checks.items, c.service = s ∧ c.domain = d) ↔ d ∈ protectedDomains py candidate s

/-- The last statement found of each name tells the domains of all its lines. -/
def LastTells (py : PyText) (raw : Bytes) : Prop :=
  ∀ s, protectedDomains py raw s = { d | d ∈ lastDomains (foundDomains py raw) s }

section Transition

variable {py : PyText} {raw previous candidate : Bytes} {checks : ControlPlaneChecks}
  {s : ControlPlaneService} {statements : List (ControlPlaneService × List (List Char))}

/-- Each statement of a name overwrites the one before it. -/
theorem get_foldl_noteDomains {d : ControlPlaneDomains} : (statements.foldl noteDomains d).get s =
    ((statements.filter fun m => m.1 = s && m.2 ≠ []).getLast?.map Prod.snd).getD (d.get s) := by
  induction statements generalizing d with
  | nil => rfl
  | cons m statements ih =>
    rw [List.foldl_cons, ih, noteDomains]
    by_cases hm : m.2 = []
    · simp [hm]
    · by_cases hs : m.1 = s
      · rw [if_neg hm, ControlPlaneDomains.get_set, if_pos hs, List.filter_cons_of_pos (by simp [hs, hm]),
          List.getLast?_cons]
        cases (statements.filter fun m => m.1 = s && m.2 ≠ []).getLast? <;> rfl
      · rw [if_neg hm, ControlPlaneDomains.get_set, if_neg hs, List.filter_cons_of_neg (by simp [hs])]

theorem get_controlPlaneDomains {d : ControlPlaneDomains} (h : controlPlaneDomainsFromConfig py raw = .ok d) :
    d.get s = lastDomains (foundDomains py raw) s := by
  unfold controlPlaneDomainsFromConfig at h
  split at h
  · cases h
  · cases h
    rw [get_foldl_noteDomains]
    cases s <;> rfl

/-- What an accepted transition has passed. -/
structure Accepted (py : PyText) (previous candidate : Bytes) (checks : ControlPlaneChecks) : Prop where
  same : ∀ s, lastDomains (foundDomains py previous) s = lastDomains (foundDomains py candidate) s
  one : ∀ s, (lastDomains (foundDomains py candidate) s).length ≤ 1
  supplied : ∀ s, checks.supplied s = (lastDomains (foundDomains py candidate) s).head?

theorem accepted_of_ok (h : validateGuardedControlPlaneTransition py previous candidate checks = .ok ()) :
    Accepted py previous candidate checks := by
  unfold validateGuardedControlPlaneTransition at h
  obtain ⟨active, ha, h⟩ := Validate.bind_eq_ok.mp h
  obtain ⟨next, hn, h⟩ := Validate.bind_eq_ok.mp h
  have hget (s : ControlPlaneService) : next.get s = lastDomains (foundDomains py candidate) s :=
    get_controlPlaneDomains hn
  split at h
  · cases h
  · split at h
    · cases h
    · rename_i hsame
      obtain rfl : active = next := not_not.mp hsame
      split at h
      · cases h
      · rename_i hfew
        split at h
        · rename_i hchecks
          refine ⟨fun s => ?_, fun s => ?_, fun s => ?_⟩
          · rw [← get_controlPlaneDomains ha, hget]
          · have := List.find?_eq_none.mp hfew s s.mem_all
            rw [← hget]
            simpa using this
          · have := List.all_eq_true.mp hchecks s s.mem_all
            rw [← hget]
            simpa using this
        · cases h

theorem Accepted.mem_iff (h : Accepted py previous candidate checks) {d : List Char} :
    (∃ c ∈ checks.items, c.service = s ∧ c.domain = d) ↔
      d ∈ lastDomains (foundDomains py candidate) s := by
  rw [← ControlPlaneChecks.supplied_eq_some, h.supplied]
  have hone := h.one s
  match lastDomains (foundDomains py candidate) s, hone with
  | [], _ => simp
  | [e], _ => simp [eq_comm]

theorem Accepted.hostsUnchanged_iff (h : Accepted py previous candidate checks) :
    HostsUnchanged py previous candidate checks ↔ LastTells py previous ∧ LastTells py candidate := by
  constructor
  · intro hu
    have hnew : LastTells py candidate := by
      intro s
      ext d
      rw [← hu.named, h.mem_iff]
      rfl
    refine ⟨fun s => ?_, hnew⟩
    rw [hu.same, hnew, h.same]
  · rintro ⟨hold, hnew⟩
    refine ⟨fun s => ?_, fun s => ?_, fun s d => ?_⟩
    · rw [hold, hnew, h.same]
    · rw [hnew]
      have hone := h.one s
      intro a (ha : a ∈ lastDomains _ s) b (hb : b ∈ lastDomains _ s)
      match hl : lastDomains (foundDomains py candidate) s, hone with
      | [], _ =>
        rw [hl] at ha
        cases ha
      | [e], _ =>
        rw [hl, List.mem_singleton] at ha hb
        rw [ha, hb]
    · rw [h.mem_iff, hnew]
      rfl

end Transition

/-! ## Statements on whole lines -/

/-- A line that begins a statement has its name, the pattern's words and a domain. -/
def Whole (ws : List (List Char)) : Prop :=
  ws ≠ [] → ∀ s : ControlPlaneService, ¬ ws <+: [aclWord, s.acl, hdrHost, dashI]

instance {ws : List (List Char)} : Decidable (Whole ws) :=
  decidable_of_iff (ws ≠ [] → ControlPlaneService.all.all
      (fun s => ¬ ws <+: [aclWord, s.acl, hdrHost, dashI]) = true) <| by
    refine imp_congr_right fun _ => ?_
    rw [List.all_eq_true]
    exact ⟨fun h s => by simpa using h s s.mem_all, fun h s _ => by simpa using h s⟩

/-- No statement goes on behind the end of its line. -/
def WholeLines (raw : Bytes) : Prop :=
  ∀ text ∈ decodeUtf8 raw, ∀ line ∈ text.splitOn '\n', Whole (words line)

section Lines

variable {line tail w x : List Char} {ws : List (List Char)} {s : ControlPlaneService}

/-- Nothing, or the next line. -/
def LineEnd (tail : List Char) : Prop := ∀ c, tail.head? = some c → c = '\n'

theorem LineEnd.atEnd (h : LineEnd tail) : AtEnd tail := by
  intro c hc
  rw [h c hc]
  decide

theorem blanks_append (h : blanks line ≠ []) : blanks (line ++ tail) = blanks line ++ tail := by
  unfold blanks at h ⊢
  rw [List.dropWhile_append, if_neg (by simpa using h)]

theorem exists_word_of_words (h : words line = w :: ws) (htail : LineEnd tail) (hn : '\n' ∉ line) :
    ∃ rest, words rest = ws ∧ '\n' ∉ rest ∧ ∀ x, IsWord x → (x = w → ws ≠ []) →
      word x (blanks (line ++ tail)) = if x = w then some (blanks (rest ++ tail)) else none := by
  have hne : blanks line ≠ [] := fun hb => by
    rw [words_eq_nil.mpr hb] at h
    cases h
  obtain ⟨v, rest, hv, hrest, heq⟩ := exists_word hne
  have hwords : v :: words rest = w :: ws := by
    rw [← words_word hv hrest, ← heq, words_blanks, h]
  obtain ⟨rfl, rfl⟩ := List.cons.inj hwords
  refine ⟨rest, rfl, fun hr => hn ?_, fun x hx hmore => ?_⟩
  · have : '\n' ∈ blanks line := heq ▸ List.mem_append_right v hr
    exact (List.dropWhile_suffix isSpace).mem this
  · rw [blanks_append hne, heq, List.append_assoc, word_append hx hv (hrest.append htail.atEnd)]
    by_cases hxv : x = v
    · have hr : rest ≠ [] := by
        rintro rfl
        exact hmore hxv words_nil
      rw [if_pos ⟨hxv, by simp [hr]⟩, if_pos hxv]
    · rw [if_neg (fun h => hxv h.1), if_neg hxv]

theorem isWord_aclWord : IsWord aclWord := by decide
theorem isWord_hdrHost : IsWord hdrHost := by decide
theorem isWord_dashI : IsWord dashI := by decide

theorem readAclName_line (h : words line = w :: ws) (htail : LineEnd tail) (hn : '\n' ∉ line)
    (hmore : ∀ s : ControlPlaneService, s.acl = w → ws ≠ []) :
    ∃ rest, words rest = ws ∧ '\n' ∉ rest ∧ readAclName (blanks (line ++ tail)) =
      (ControlPlaneService.ofAcl w).map (·, blanks (rest ++ tail)) := by
  obtain ⟨rest, hrest, hnr, hread⟩ := exists_word_of_words h htail hn
  refine ⟨rest, hrest, hnr, ?_⟩
  have hadmin := hread _ (ControlPlaneService.isWord_acl .admin) (hmore .admin)
  have hauthelia := hread _ (ControlPlaneService.isWord_acl .authelia) (hmore .authelia)
  unfold readAclName
  rw [hadmin, hauthelia]
  by_cases ha : ControlPlaneService.admin.acl = w
  · rw [if_pos ha, ← ha, ControlPlaneService.ofAcl_acl]
    rfl
  · by_cases hb : ControlPlaneService.authelia.acl = w
    · rw [if_neg ha, if_pos hb, ← hb, ControlPlaneService.ofAcl_acl]
      rfl
    · rw [if_neg ha, if_neg hb, ControlPlaneService.ofAcl_eq_none]
      · rfl
      · intro s
        cases s with
        | admin => exact ha
        | authelia => exact hb

theorem value_of_line (hn : '\n' ∉ line) (htail : LineEnd tail) (hne : words line ≠ []) :
    let l := blanks (line ++ tail)
    l ≠ [] ∧ words ((l.takeWhile (· ≠ '\n')).rdropWhile isSpace) = words line ∧
      l.drop (l.takeWhile (· ≠ '\n')).length = tail := by
  have hb : blanks line ≠ [] := fun h => hne (words_eq_nil.mpr h)
  have hnb : ∀ c ∈ blanks line, (decide (c ≠ '\n')) = true := by
    intro c hc
    have := (List.dropWhile_suffix isSpace).mem hc
    simpa using fun he : c = '\n' => hn (he ▸ this)
  have htake : (blanks line ++ tail).takeWhile (· ≠ '\n') = blanks line := by
    rw [List.takeWhile_append_of_pos hnb]
    cases tail with
    | nil => simp
    | cons c tail => simp [htail c rfl]
  simp only [blanks_append hb, htake]
  refine ⟨by simp [hb], ?_, List.drop_left⟩
  rw [words_rdropWhile, words_blanks]

theorem aclLine_of_ne_acl {a : List Char} (h : aclWord ≠ a) : aclLine (a :: ws) = none := by
  unfold aclLine
  split
  · rename_i heq
    obtain ⟨rfl, rfl⟩ := List.cons.inj heq
    rw [if_neg fun hw => h hw.1.symm]
  · rfl

theorem aclLine_of_unnamed {a n : List Char} (h : ControlPlaneService.ofAcl n = none) :
    aclLine (a :: n :: ws) = none := by
  unfold aclLine
  split
  · rename_i heq
    obtain ⟨rfl, rfl⟩ := List.cons.inj (List.cons.inj heq).2
    rw [h, Option.map_none, ite_self]
  · rfl

theorem aclLine_of_ne_hdr {a n h : List Char} (hh : hdrHost ≠ h) : aclLine (a :: n :: h :: ws) = none := by
  unfold aclLine
  split
  · rename_i heq
    obtain ⟨rfl, rfl⟩ := List.cons.inj (List.cons.inj (List.cons.inj heq).2).2
    rw [if_neg fun hw => hh hw.2.1.symm]
  · rfl

theorem aclLine_named : aclLine (aclWord :: s.acl :: hdrHost :: dashI :: ws) = some (s, ws) := by
  rw [aclLine, if_pos ⟨rfl, rfl, rfl⟩, ControlPlaneService.ofAcl_acl, Option.map_some]

theorem aclLine_of_ne_dash {a n h i : List Char} (hi : dashI ≠ i) : aclLine (a :: n :: h :: i :: ws) = none := by
  rw [aclLine, if_neg fun hw => hi hw.2.2.symm]

/-- Over whole lines the pattern reads the line it starts on, as its words say. -/
theorem aclMatch_line (hws : words line = ws) (hne : ws ≠ []) (hwhole : Whole ws) (hn : '\n' ∉ line)
    (htail : LineEnd tail) : (aclMatch (line ++ tail)).map (fun m => (m.1, words m.2.1, m.2.2)) =
      (aclLine ws).map fun m => (m.1, m.2, tail) := by
  have hcut := hwhole hne
  obtain ⟨a, ws, rfl⟩ := List.exists_cons_of_ne_nil hne
  obtain ⟨line₁, h₁, hn₁, hread₁⟩ := exists_word_of_words hws htail hn
  have hmore₁ : aclWord = a → ws ≠ [] := by
    rintro rfl rfl
    exact hcut .admin (by decide)
  have hacl := hread₁ _ isWord_aclWord hmore₁
  by_cases ha : aclWord = a
  case neg => simp [aclMatch, hacl, ha, aclLine_of_ne_acl ha]
  subst ha
  obtain ⟨n, ws, rfl⟩ := List.exists_cons_of_ne_nil (hmore₁ rfl)
  have hmore₂ (s : ControlPlaneService) (hs : s.acl = n) : ws ≠ [] := by
    rintro rfl
    exact hcut s (by simp [hs])
  obtain ⟨line₂, h₂, hn₂, hname⟩ := readAclName_line h₁ htail hn₁ hmore₂
  cases hof : ControlPlaneService.ofAcl n with
  | none => simp [aclMatch, hacl, hname, hof, aclLine_of_unnamed hof]
  | some s =>
    obtain rfl : s.acl = n := by simpa using List.find?_some hof
    obtain ⟨h, ws, rfl⟩ := List.exists_cons_of_ne_nil (hmore₂ s rfl)
    obtain ⟨line₃, h₃, hn₃, hread₃⟩ := exists_word_of_words h₂ htail hn₂
    have hmore₃ : hdrHost = h → ws ≠ [] := by
      rintro rfl rfl
      exact hcut s (by simp)
    have hhdr := hread₃ _ isWord_hdrHost hmore₃
    by_cases hh : hdrHost = h
    case neg => simp [aclMatch, hacl, hname, hof, hhdr, hh, aclLine_of_ne_hdr hh]
    subst hh
    obtain ⟨i, ws, rfl⟩ := List.exists_cons_of_ne_nil (hmore₃ rfl)
    obtain ⟨line₄, h₄, hn₄, hread₄⟩ := exists_word_of_words h₃ htail hn₃
    have hmore₄ : dashI = i → ws ≠ [] := by
      rintro rfl rfl
      exact hcut s (by simp)
    have hdash := hread₄ _ isWord_dashI hmore₄
    by_cases hi : dashI = i
    case neg => simp [aclMatch, hacl, hname, hof, hhdr, hdash, hi, aclLine_of_ne_dash hi]
    subst hi
    obtain ⟨hval, hwords, hrest⟩ := value_of_line hn₄ htail (h₄ ▸ hmore₄ rfl)
    have hmatch : aclMatch (line ++ tail) = some (s,
        ((blanks (line₄ ++ tail)).takeWhile (· ≠ '\n')).rdropWhile isSpace,
        (blanks (line₄ ++ tail)).drop ((blanks (line₄ ++ tail)).takeWhile (· ≠ '\n')).length) := by
      simp only [aclMatch, hacl, hname, hof, hhdr, hdash, if_pos, if_neg hval, Option.bind_eq_bind,
        Option.bind_some, Option.map_some]
    rw [hmatch, Option.map_some, aclLine_named, Option.map_some, hwords, hrest, h₄]

end Lines

/-! ## A text of whole lines -/

section Texts

variable {line rest text : List Char} {limit : Nat}

theorem lineStarts_append (h : '\n' ∉ line) :
    lineStarts (line ++ '\n' :: rest) = (line ++ '\n' :: rest) :: lineStarts rest := by
  unfold lineStarts
  congr 1
  induction line with
  | nil => rfl
  | cons c line ih =>
    rw [List.cons_append, afterLineEnds, if_neg (fun hc : c = '\n' => h (hc ▸ List.mem_cons_self))]
    exact ih fun hl => h (List.mem_cons_of_mem c hl)

theorem lineStarts_line (h : '\n' ∉ line) : lineStarts line = [line] := by
  unfold lineStarts
  congr 1
  induction line with
  | nil => rfl
  | cons c line ih =>
    rw [afterLineEnds, if_neg (fun hc : c = '\n' => h (hc ▸ List.mem_cons_self))]
    exact ih fun hl => h (List.mem_cons_of_mem c hl)

theorem length_of_word {x l : List Char} (h : word x l = some rest) : rest.length < l.length := by
  obtain ⟨m, hm, hs⟩ := Option.bind_eq_some_iff.mp h
  obtain ⟨x', rfl, -⟩ := List.dropPrefix?_eq_some_iff.mp hm
  cases m with
  | nil => cases hs
  | cons c m =>
    have hlen : (blanks m).length ≤ m.length := (List.dropWhile_suffix isSpace).length_le
    rw [someBlanks] at hs
    split at hs
    · cases hs
      rw [List.length_append, List.length_cons]
      omega
    · cases hs

theorem length_of_aclMatch {l : List Char} {m : ControlPlaneService × List Char × List Char}
    (h : aclMatch l = some m) : m.2.2.length < l.length := by
  unfold aclMatch at h
  obtain ⟨l₁, h₁, h⟩ := Option.bind_eq_some_iff.mp h
  obtain ⟨⟨s, l₂⟩, h₂, h⟩ := Option.bind_eq_some_iff.mp h
  obtain ⟨l₃, h₃, h⟩ := Option.bind_eq_some_iff.mp h
  obtain ⟨l₄, h₄, h⟩ := Option.bind_eq_some_iff.mp h
  have hname : l₂.length < l₁.length := by
    unfold readAclName at h₂
    split at h₂
    · rename_i hr
      cases h₂
      exact length_of_word hr
    · obtain ⟨r, hr, he⟩ := Option.map_eq_some_iff.mp h₂
      cases he
      exact length_of_word hr
  have hfront : (blanks l).length ≤ l.length := (List.dropWhile_suffix isSpace).length_le
  have := length_of_word h₁
  have := length_of_word h₃
  have := length_of_word h₄
  split at h
  · cases h
  · cases h
    rw [List.length_drop]
    omega

theorem findFrom_blank (hb : words line = []) (hl : (line ++ '\n' :: rest).length ≤ limit)
    (starts : List (List Char)) : findFrom limit ((line ++ '\n' :: rest) :: rest :: starts) =
      findFrom limit (rest :: starts) := by
  have hsame : aclMatch (line ++ '\n' :: rest) = aclMatch rest := by
    have hblanks : blanks (line ++ '\n' :: rest) = blanks rest := by
      have hnil := words_eq_nil.mp hb
      unfold blanks at hnil ⊢
      rw [List.dropWhile_append, if_pos (by simp [hnil]), List.dropWhile_cons_of_pos (by decide)]
    unfold aclMatch
    rw [hblanks]
  have hrest : ¬ limit < rest.length := by
    rw [List.length_append, List.length_cons] at hl
    omega
  rw [findFrom, if_neg (Nat.not_lt.mpr hl), hsame]
  cases hm : aclMatch rest with
  | none => rfl
  | some m =>
    -- the text behind the blanks is inside the match
    obtain ⟨s, values, left⟩ := m
    simp only
    rw [findFrom, if_pos (length_of_aclMatch hm), findFrom, if_neg hrest, hm]

theorem aclMatch_blank (hb : words line = []) : aclMatch line = none := by
  unfold aclMatch
  rw [words_eq_nil.mp hb]
  rfl

theorem splitOn_line (h : '\n' ∉ line) : line.splitOn '\n' = [line] :=
  List.splitOnP_eq_singleton fun c hc => by simpa using fun he : c = '\n' => h (he ▸ hc)

theorem splitOn_append (line rest : List Char) (h : '\n' ∉ line) :
    (line ++ '\n' :: rest).splitOn '\n' = line :: rest.splitOn '\n' := by
  unfold List.splitOn
  rw [List.splitOnP_append_cons _ _ (by simp)]
  exact congrArg (· ++ _) (splitOn_line h)

/-- What a look at one whole line adds to what the rest of the text gives. -/
theorem findFrom_line (tail : List Char) (starts : List (List Char)) (hn : '\n' ∉ line)
    (htail : LineEnd tail) (hw : Whole (words line)) (hne : words line ≠ [])
    (hl : (line ++ tail).length ≤ limit) {found : List (ControlPlaneService × List (List Char))}
    (hstarts : ∀ limit, tail.length ≤ limit →
      (findFrom limit starts).map (fun m => (m.1, words m.2)) = found) :
    (findFrom limit ((line ++ tail) :: starts)).map (fun m => (m.1, words m.2)) =
      (aclLine (words line)).toList ++ found := by
  have hread := aclMatch_line rfl hne hw hn htail
  rw [findFrom, if_neg (Nat.not_lt.mpr hl)]
  cases hm : aclMatch (line ++ tail) with
  | none =>
    rw [hm, Option.map_none, eq_comm, Option.map_eq_none_iff] at hread
    rw [hread]
    refine hstarts limit ?_
    rw [List.length_append] at hl
    omega
  | some m =>
    obtain ⟨s, values, left⟩ := m
    rw [hm, Option.map_some, eq_comm] at hread
    obtain ⟨⟨t, ws⟩, hline, he⟩ := Option.map_eq_some_iff.mp hread
    simp only [Prod.mk.injEq] at he
    obtain ⟨rfl, rfl, rfl⟩ := he
    rw [hline, List.map_cons, hstarts _ le_rfl]
    rfl

/-- Where no statement is cut at a line end, the pattern finds the ACL lines, in their order. -/
theorem findFrom_lineStarts (h : ∀ line ∈ text.splitOn '\n', Whole (words line)) (hl : text.length ≤ limit) :
    (findFrom limit (lineStarts text)).map (fun m => (m.1, words m.2)) =
      (text.splitOn '\n').filterMap fun line => aclLine (words line) := by
  induction hlen : text.length using Nat.strong_induction_on generalizing text limit with
  | _ n ih =>
    by_cases hn : '\n' ∈ text
    · obtain ⟨line, rest, rfl, hline⟩ := List.eq_append_cons_of_mem hn
      rw [splitOn_append _ _ hline] at h ⊢
      obtain ⟨hw, hrest⟩ := List.forall_mem_cons.mp h
      have hshort : rest.length < (line ++ '\n' :: rest).length := by
        rw [List.length_append, List.length_cons]
        omega
      have hgo (limit : Nat) (hlimit : rest.length ≤ limit) := ih _ (hlen ▸ hshort) hrest hlimit rfl
      rw [lineStarts_append hline, List.filterMap_cons]
      by_cases hb : words line = []
      · rw [hb]
        refine Eq.trans (congrArg _ (findFrom_blank hb hl _)) ?_
        exact hgo limit (by omega)
      · rw [findFrom_line ('\n' :: rest) _ hline (by rintro _ ⟨⟩; rfl) hw hb hl
          fun limit hlimit => hgo limit (by simpa using Nat.le_of_succ_le hlimit)]
        cases aclLine (words line) <;> rfl
    · rw [splitOn_line hn] at h ⊢
      rw [lineStarts_line hn, List.filterMap_cons]
      by_cases hb : words text = []
      · rw [hb, findFrom, if_neg (Nat.not_lt.mpr hl), aclMatch_blank hb]
        rfl
      · have hlast := findFrom_line [] [] hn (by rintro _ ⟨⟩)
          (h _ List.mem_cons_self) hb (by simpa using hl) (fun _ _ => rfl)
        rw [List.append_nil] at hlast
        rw [hlast]
        cases aclLine (words text) <;> rfl

end Texts

section Whole

variable {py : PyText} {raw : Bytes}

theorem foundDomains_eq_aclLines (h : WholeLines raw) : foundDomains py raw = aclLines py raw := by
  unfold foundDomains aclLines
  cases hd : decodeUtf8 raw with
  | none => rfl
  | some text =>
    have hlines := findFrom_lineStarts (h text hd) (le_refl text.length)
    simp only [Option.map_some, Option.getD_some]
    rw [← List.map_filterMap, ← hlines, List.map_map]
    rfl

theorem lastDomains_subset {statements : List (ControlPlaneService × List (List Char))}
    {s : ControlPlaneService} {d : List Char} (h : d ∈ lastDomains statements s) :
    ∃ line ∈ statements, line.1 = s ∧ d ∈ line.2 := by
  unfold lastDomains at h
  cases hl : (statements.filter fun m => m.1 = s && m.2 ≠ []).getLast? with
  | none =>
    rw [hl] at h
    cases h
  | some m =>
    rw [hl] at h
    obtain ⟨hmem, hm⟩ := List.mem_filter.mp (List.mem_of_getLast? hl)
    simp only [Bool.and_eq_true, decide_eq_true_eq] at hm
    exact ⟨m, hmem, hm.1, h⟩

theorem lastTells_iff_of_whole (h : WholeLines raw) : LastTells py raw ↔
    ∀ line ∈ aclLines py raw, ∀ d ∈ line.2, d ∈ lastDomains (aclLines py raw) line.1 := by
  unfold LastTells
  rw [foundDomains_eq_aclLines h]
  constructor
  · intro htells line hline d hd
    have hmem : d ∈ protectedDomains py raw line.1 := ⟨line, hline, rfl, hd⟩
    rw [htells] at hmem
    exact hmem
  · intro hall s
    ext d
    constructor
    · rintro ⟨line, hline, rfl, hd⟩
      exact hall line hline d hd
    · exact lastDomains_subset

end Whole

/-- An accepted transition leaves the protected hosts as they were, and checked, exactly when in
both configurations the last statement found of each name tells the domains of all its lines. On
whole lines that is when no line names a domain that the last line of its name leaves out. -/
theorem hosts_unchanged_iff (py : PyText) (previous candidate : Bytes) (checks : ControlPlaneChecks)
    (h : validateGuardedControlPlaneTransition py previous candidate checks = .ok ()) :
    (HostsUnchanged py previous candidate checks ↔ LastTells py previous ∧ LastTells py candidate) ∧
      ∀ raw, WholeLines raw → (LastTells py raw ↔
        ∀ line ∈ aclLines py raw, ∀ d ∈ line.2, d ∈ lastDomains (aclLines py raw) line.1) :=
  ⟨(accepted_of_ok h).hostsUnchanged_iff, fun _ => lastTells_iff_of_whole⟩

/-! ## Two configurations -/

/-- A configuration as it is stored. -/
def encodeUtf8 (text : List Char) : Bytes := (String.ofList text).toUTF8.data.toList

theorem decodeUtf8_encodeUtf8 (text : List Char) : decodeUtf8 (encodeUtf8 text) = some text := by
  have hbytes : (⟨(encodeUtf8 text).toArray⟩ : ByteArray) = (String.ofList text).toUTF8 := by
    simp [encodeUtf8]
  have hvalid : (String.ofList text).toUTF8.IsValidUTF8 := (String.ofList text).isValidUTF8
  unfold decodeUtf8
  simp only [hbytes]
  rw [dif_pos hvalid]
  exact congrArg some (String.toList_ofList ..)

theorem foundDomains_encodeUtf8 (py : PyText) (text : List Char) : foundDomains py (encodeUtf8 text) =
    (finditer text).map fun m => (m.1, domainsOf py (words m.2)) := by
  unfold foundDomains
  rw [decodeUtf8_encodeUtf8, Option.map_some, Option.getD_some]

theorem aclLines_encodeUtf8 (py : PyText) (text : List Char) : aclLines py (encodeUtf8 text) =
    (text.splitOn '\n').filterMap fun line =>
      (aclLine (words line)).map fun m => (m.1, domainsOf py m.2) := by
  unfold aclLines
  rw [decodeUtf8_encodeUtf8, Option.map_some, Option.getD_some]

theorem domainsFromConfig_encodeUtf8 (py : PyText) (text : List Char) :
    controlPlaneDomainsFromConfig py (encodeUtf8 text) =
      .ok (((finditer text).map fun m => (m.1, domainsOf py (words m.2))).foldl noteDomains {}) := by
  unfold controlPlaneDomainsFromConfig
  rw [decodeUtf8_encodeUtf8, if_neg (by simp), foundDomains_encodeUtf8]

def asciiText : PyText := ⟨fun _ => "", lower⟩

def oneHost : List Char := "acl host_admin hdr(host) -i a.b\n".toList

/-- Another one on a line before it. -/
def anotherHost : List Char := "acl host_admin hdr(host) -i x.y\nacl host_admin hdr(host) -i a.b\n".toList

def oneCheck : ControlPlaneChecks where
  items := [⟨.admin, ['a', '.', 'b']⟩]
  distinct := by decide
  domains := by decide

theorem accepted_oneHost : validateGuardedControlPlaneTransition asciiText (encodeUtf8 oneHost)
    (encodeUtf8 oneHost) oneCheck = .ok () := by
  unfold validateGuardedControlPlaneTransition
  rw [domainsFromConfig_encodeUtf8]
  decide +kernel

theorem accepted_anotherHost : validateGuardedControlPlaneTransition asciiText (encodeUtf8 oneHost)
    (encodeUtf8 anotherHost) oneCheck = .ok () := by
  unfold validateGuardedControlPlaneTransition
  rw [domainsFromConfig_encodeUtf8, domainsFromConfig_encodeUtf8]
  decide +kernel

/-- With one line the hosts stay as they were. -/
theorem hosts_unchanged_oneHost : HostsUnchanged asciiText (encodeUtf8 oneHost) (encodeUtf8 oneHost) oneCheck := by
  obtain ⟨hiff, hwhole⟩ := hosts_unchanged_iff asciiText (encodeUtf8 oneHost) (encodeUtf8 oneHost) oneCheck
    accepted_oneHost
  have hlines : WholeLines (encodeUtf8 oneHost) := by
    intro text htext
    rw [decodeUtf8_encodeUtf8] at htext
    cases htext
    decide +kernel
  have htells : LastTells asciiText (encodeUtf8 oneHost) := by
    rw [hwhole _ hlines, aclLines_encodeUtf8]
    decide +kernel
  exact hiff.mpr ⟨htells, htells⟩

/-- A second protected host comes with a line that the last one overwrites. -/
theorem second_host_accepted : ¬ ∀ (py : PyText) (previous candidate : Bytes) (checks : ControlPlaneChecks),
    validateGuardedControlPlaneTransition py previous candidate checks = .ok () →
      HostsUnchanged py previous candidate checks := by
  intro h
  have hsame := (h _ _ _ _ accepted_anotherHost).same .admin
  have hnew : ['x', '.', 'y'] ∈ protectedDomains asciiText (encodeUtf8 anotherHost) .admin := by
    refine ⟨(.admin, [['x', '.', 'y']]), ?_, rfl, List.mem_singleton_self _⟩
    rw [aclLines_encodeUtf8]
    decide +kernel
  rw [← hsame] at hnew
  obtain ⟨line, hline, -, hd⟩ := hnew
  have hold : ∀ line ∈ aclLines asciiText (encodeUtf8 oneHost), ['x', '.', 'y'] ∉ line.2 := by
    rw [aclLines_encodeUtf8]
    decide +kernel
  exact hold line hline hd

end EasyHaProxy.Controld
