import EasyHaProxy.Certs.DnsProfiles

/-! A save of some of a profile's credentials keeps the others as long as no value has a line end in it and
no stored value is lost where it cannot be read. -/
namespace EasyHaProxy.Certs.DnsProfiles

open Text

variable {provider key value line text : List Char} {keys lines : List (List Char)} {supplied : Credentials}
  {kept values : Dict (List Char) (List Char)} {profile : Profile} {raw : Option (List Char)} {saves : List Save}
  {s : State} {call : Call} {saved : Saved}

theorem filled_eq_some (h : filled raw = some value) : raw = some value ∧ value ≠ [] := by
  match raw, h with
  | some (c :: value), rfl => exact ⟨rfl, by simp⟩

theorem filled_eq_self (h : ∀ value, raw = some value → value ≠ []) : filled raw = raw := by
  match raw with
  | none => rfl
  | some [] => exact absurd rfl (h [] rfl)
  | some (c :: value) => rfl

theorem supplied_eq_some (h : supplied.filled key = some value) : key ∈ supplied.keys ∧ value ≠ [] := by
  obtain ⟨hjoin, hne⟩ := filled_eq_some h
  refine ⟨Dict.mem_keys.mpr ?_, hne⟩
  cases hget : supplied.get? key with
  | none => simp [hget] at hjoin
  | some _ => rfl

/-! ## The providers -/

/-- What a key of the table looks like in a line. -/
structure IsKey (key : List Char) : Prop where
  word : IsWord key
  entry : key.head? ≠ some '#'

instance : Decidable (IsKey key) :=
  decidable_of_iff (IsWord key ∧ key.head? ≠ some '#') ⟨fun h => ⟨h.1, h.2⟩, fun h => ⟨h.word, h.entry⟩⟩

theorem isKey_of_provider (h : dnsProviders.get? provider = some keys) :
    IsWord provider ∧ ∀ key ∈ keys, IsKey key := by
  have htable : (dnsProviders.entries.all fun spec =>
      decide (IsWord spec.1) && spec.2.all fun key => decide (IsKey key)) = true := by
    decide
  have hspec := List.all_eq_true.mp htable _ (Dict.mem_entries.mpr h)
  simpa using hspec

theorem isSpace_of_isLineEnd {c : Char} (h : isLineEnd c = true) : isSpace c = true := by
  have hends : (['\n', '\r', '\x0b', '\x0c', '\x1c', '\x1d', '\x1e', '\x85', '\u2028', '\u2029'].all isSpace) = true := by
    decide
  exact List.all_eq_true.mp hends c (by simpa [isLineEnd] using h)

theorem not_isLineEnd_of_isWord (h : IsWord key) : ∀ c ∈ key, isLineEnd c = false := by
  intro c hc
  by_contra hend
  rw [Bool.not_eq_false] at hend
  exact absurd (isSpace_of_isLineEnd hend) (by simp [h.noBlank c hc])

/-! ## Written lines are read back -/

theorem splitEquals_entryLine (h : ' ' ∉ key) : splitEquals (entryLine key value) = some (key, value) := by
  induction key with
  | nil => rfl
  | cons c key ih =>
    rw [List.mem_cons, not_or] at h
    have hrest : splitEquals (key ++ ' ' :: '=' :: ' ' :: value) = some (key, value) := ih h.2
    rw [entryLine, List.cons_append, splitEquals, hrest]
    · rfl
    · rintro v rfl
      exact absurd rfl h.1

theorem readLine_entryLine (h : IsKey key) :
    readLine profile (entryLine key value) = { profile with values := profile.values.set key value } := by
  have hspace : ' ' ∉ key := fun hmem => absurd (h.word.noBlank ' ' hmem) (by decide)
  have hstrip : Text.strip key = key := h.word.clean.strip_eq
  have hhead : (entryLine key value).head? ≠ some '#' := by
    cases key with
    | nil => exact absurd rfl h.word.ne_nil
    | cons c key => exact h.entry
  have hmark : providerMark.isPrefixOf (entryLine key value) = false := by
    cases hline : entryLine key value with
    | nil => rfl
    | cons c line =>
      have hc : ('#' == c) = false := by
        rw [beq_eq_false_iff_ne]
        rintro rfl
        exact hhead (by rw [hline]; rfl)
      simp [providerMark, List.isPrefixOf, hc]
  rw [readLine, hmark, if_neg Bool.false_ne_true, splitEquals_entryLine hspace]
  dsimp only
  rw [if_neg hhead, hstrip]

theorem readLine_providerLine (h : IsWord provider) :
    readLine profile (providerLine provider) = { profile with provider := provider } := by
  have hmark : providerMark.isPrefixOf (providerLine provider) = true :=
    List.isPrefixOf_iff_prefix.mpr (List.prefix_append _ _)
  have hrest : ((providerLine provider).dropWhile (· != ':')).drop 1 = ' ' :: provider := rfl
  rw [readLine, if_pos hmark, hrest, strip_cons (by decide), h.clean.strip_eq]

theorem mem_of_splitEquals (h : splitEquals line = some (key, value)) : ∀ c ∈ value, c ∈ line := by
  induction line using splitEquals.induct generalizing key with
  | case1 value' =>
    cases h
    exact fun c hc => List.mem_cons_of_mem _ (List.mem_cons_of_mem _ (List.mem_cons_of_mem _ hc))
  | case2 d rest hne ih =>
    rw [splitEquals.eq_2 _ _ hne, Option.map_eq_some_iff] at h
    obtain ⟨⟨k, v⟩, hrest, hpair⟩ := h
    cases hpair
    exact fun c hc => List.mem_cons_of_mem d (ih hrest c hc)
  | case3 => cases h

theorem readLine_value (h : (readLine profile line).values.get? key = some value) :
    profile.values.get? key = some value ∨ ∀ c ∈ value, c ∈ line := by
  unfold readLine at h
  split at h
  · exact Or.inl h
  · split at h
    · exact Or.inl h
    · rename_i key' value' hsplit
      split at h
      · exact Or.inl h
      · rw [Dict.get?_set] at h
        split at h
        · cases h
          exact Or.inr (mem_of_splitEquals hsplit)
        · exact Or.inl h

theorem foldl_readLine_value (h : (lines.foldl readLine profile).values.get? key = some value) :
    profile.values.get? key = some value ∨ ∃ line ∈ lines, ∀ c ∈ value, c ∈ line := by
  induction lines generalizing profile with
  | nil => exact Or.inl h
  | cons line lines ih =>
    rcases ih h with hline | ⟨later, hlater, hmem⟩
    · rcases readLine_value hline with hsame | hmem
      · exact Or.inl hsame
      · exact Or.inr ⟨line, List.mem_cons_self, hmem⟩
    · exact Or.inr ⟨later, List.mem_cons_of_mem line hlater, hmem⟩

theorem readDnsProfile_oneLine (h : (readDnsProfile raw).values.get? key = some value) :
    ∀ c ∈ value, isLineEnd c = false := by
  cases raw with
  | none => cases h
  | some text =>
    rcases foldl_readLine_value h with hnone | ⟨line, hline, hmem⟩
    · cases hnone
    · exact fun c hc => mem_splitLines hline (hmem c hc)

/-! ## A save -/

/-- The loop ends with a line for each key that has a value. -/
theorem entryLines_eq (h : entryLines supplied kept keys = .ok lines) :
    lines = keys.filterMap fun key => (chosen supplied kept key).map (entryLine key) := by
  induction keys generalizing lines with
  | nil =>
    cases h
    rfl
  | cons key keys ih =>
    rw [entryLines] at h
    split at h
    · rename_i hnone
      rw [List.filterMap_cons_none (by rw [hnone]; rfl)]
      exact ih h
    · rename_i value hvalue
      split_ifs at h
      cases hrest : entryLines supplied kept keys with
      | error text => simp [hrest, Except.map] at h
      | ok rest =>
        rw [hrest] at h
        cases h
        rw [List.filterMap_cons_some (by rw [hvalue]; rfl), ih hrest]

def chosenValues (supplied : Credentials) (kept values : Dict (List Char) (List Char)) (keys : List (List Char)) :
    Dict (List Char) (List Char) :=
  keys.foldl (fun values key => match chosen supplied kept key with
    | none => values
    | some value => values.set key value) values

theorem get?_chosenValues : (chosenValues supplied kept values keys).get? key =
    if key ∈ keys then (chosen supplied kept key).or (values.get? key) else values.get? key := by
  induction keys generalizing values with
  | nil => rfl
  | cons k keys ih =>
    rw [chosenValues, List.foldl_cons, ← chosenValues, ih]
    by_cases hk : key = k
    · subst hk
      cases hchosen : chosen supplied kept key <;> simp
    · cases chosen supplied kept k <;> simp [hk]

theorem foldl_readLine_entries (h : ∀ key ∈ keys, IsKey key) :
    (keys.filterMap fun key => (chosen supplied kept key).map (entryLine key)).foldl readLine profile =
      { profile with values := chosenValues supplied kept profile.values keys } := by
  induction keys generalizing profile with
  | nil => rfl
  | cons key keys ih =>
    have hkeys : ∀ k ∈ keys, IsKey k := fun k hk => h k (List.mem_cons_of_mem key hk)
    cases hchosen : chosen supplied kept key with
    | none =>
      rw [List.filterMap_cons_none (by rw [hchosen]; rfl), ih hkeys]
      simp [chosenValues, hchosen]
    | some value =>
      rw [List.filterMap_cons_some (by rw [hchosen]; rfl), List.foldl_cons, readLine_entryLine (h key List.mem_cons_self),
        ih hkeys]
      simp [chosenValues, hchosen]

/-- What a save that succeeds has found in order. -/
theorem saved_ok {read : List Char → Option (List Char)} {payload : Payload}
    (h : saveDnsProvider read payload = .ok saved) :
    ∃ keys supplied line lines, dnsProviders.get? saved.provider = some keys ∧
      payload.credentials = some supplied ∧ (∀ key ∈ supplied.keys, key ∈ keys) ∧
      entryLines supplied (keptValues (readDnsProfile (read saved.name)) saved.provider) keys = .ok (line :: lines) ∧
      saved.text = writeLines (providerLine saved.provider :: line :: lines) := by
  rw [saveDnsProvider] at h
  split at h
  · cases h
  · rename_i keys hkeys
    split at h
    · split at h
      · cases h
      · rename_i supplied hsupplied
        split at h
        · rename_i hall
          split at h
          · cases h
          · cases h
          · rename_i line lines hlines
            cases h
            refine ⟨keys, supplied, line, lines, hkeys, hsupplied, ?_, hlines, rfl⟩
            simpa using hall
        · cases h
    · cases h

theorem read_saved {line : List Char} (hprovider : dnsProviders.get? provider = some keys)
    (hlines : entryLines supplied kept keys = .ok (line :: lines))
    (hclean : ∀ key value, chosen supplied kept key = some value → ∀ c ∈ value, isLineEnd c = false) :
    readDnsProfile (some (writeLines (providerLine provider :: line :: lines))) =
      ⟨provider, chosenValues supplied kept .empty keys⟩ := by
  obtain ⟨hword, hkeys⟩ := isKey_of_provider hprovider
  have heq := entryLines_eq hlines
  have hends : ∀ l ∈ providerLine provider :: line :: lines, ∀ c ∈ l, isLineEnd c = false := by
    intro l hl c hc
    rcases List.mem_cons.mp hl with rfl | hl
    · have hmark : providerMark.all (!isLineEnd ·) = true := by decide
      simp only [providerLine, List.mem_append, List.mem_cons] at hc
      rcases hc with hc | rfl | hc
      · simpa using List.all_eq_true.mp hmark c hc
      · rfl
      · exact not_isLineEnd_of_isWord hword c hc
    · rw [heq] at hl
      obtain ⟨key, hkey, hl⟩ := List.mem_filterMap.mp hl
      obtain ⟨value, hvalue, rfl⟩ := Option.map_eq_some_iff.mp hl
      simp only [entryLine, List.mem_append, List.mem_cons] at hc
      rcases hc with hc | rfl | rfl | rfl | hc
      · exact not_isLineEnd_of_isWord (hkeys key hkey).word c hc
      · rfl
      · rfl
      · rfl
      · exact hclean key value hvalue c hc
  rw [readDnsProfile, splitLines_writeLines (by simp) hends, List.foldl_cons, readLine_providerLine hword, heq,
    foldl_readLine_entries hkeys]
  rfl

/-! ## What was supplied last -/

theorem lastSupplied_cons {save : Save} : lastSupplied (save :: saves) key =
    (save.supplied.filled key).or (carried saves save.provider key) := by
  have hfirst : lastSupplied (save :: saves) key = (save.supplied.filled key).or
      ((saves.takeWhile (·.provider = save.provider)).findSome? (·.supplied.filled key)) := by
    rw [lastSupplied, List.takeWhile_cons_of_pos (by simp), List.findSome?_cons]
    cases save.supplied.filled key <;> rfl
  rw [hfirst]
  congr 1
  cases saves with
  | nil => rfl
  | cons last older =>
    by_cases hp : last.provider = save.provider
    · rw [carried, if_pos (by simp [hp]), lastSupplied, hp]
    · rw [carried, if_neg (by simp [hp]), List.takeWhile_cons_of_neg (by simp [hp])]
      rfl

theorem lastSupplied_ne_nil (h : lastSupplied saves key = some value) : value ≠ [] := by
  cases saves with
  | nil => cases h
  | cons save older =>
    obtain ⟨other, -, hother⟩ := List.exists_of_findSome?_eq_some h
    exact (supplied_eq_some hother).2

/-! ## Runs -/

structure Faithful (file : Option (List Char)) (saves : List Save) : Prop where
  provider : (readDnsProfile file).provider = (saves.head?.map Save.provider).getD []
  values : ∀ key, (readDnsProfile file).values.get? key = lastSupplied saves key
  known : ∀ save ∈ saves, ∃ keys, dnsProviders.get? save.provider = some keys ∧ ∀ key ∈ save.supplied.keys, key ∈ keys

theorem faithful_start : Faithful none [] := ⟨rfl, fun _ => rfl, by simp⟩

theorem Faithful.carried_unknown {file : Option (List Char)} (h : Faithful file saves)
    (hkeys : dnsProviders.get? provider = some keys) (hkey : key ∉ keys) : carried saves provider key = none := by
  rw [carried]
  split_ifs with hp
  · cases saves with
    | nil => rfl
    | cons last older =>
      obtain rfl : last.provider = provider := by simpa using hp
      refine List.findSome?_eq_none_iff.mpr fun save hsave => ?_
      have hsame : save.provider = last.provider := by simpa using List.mem_takeWhile_imp hsave
      obtain ⟨keys', hkeys', hknown⟩ := h.known save ((List.takeWhile_prefix _).mem hsave)
      rw [hsame, hkeys] at hkeys'
      cases hkeys'
      cases hfilled : save.supplied.filled key with
      | none => rfl
      | some value => exact absurd (hknown key (supplied_eq_some hfilled).1) hkey
  · rfl

theorem Faithful.keptValues {file : Option (List Char)} (h : Faithful file saves)
    (hkeys : dnsProviders.get? provider = some keys) :
    (DnsProfiles.keptValues (readDnsProfile file) provider).get? key = carried saves provider key := by
  have hne : provider ≠ [] := (isKey_of_provider hkeys).1.ne_nil
  unfold DnsProfiles.keptValues carried
  rw [h.provider]
  cases saves with
  | nil =>
    have hfresh : (Option.map Save.provider ([] : List Save).head?).getD [] ≠ provider := Ne.symm hne
    rw [if_neg hfresh]
    rfl
  | cons save older =>
    by_cases hp : save.provider = provider
    · rw [if_pos (by simpa using hp), if_pos (by simp [hp]), h.values]
    · rw [if_neg (by simpa using hp), if_neg (by simp [hp])]
      rfl

theorem read_step {file : Option (List Char)} (hkeys : dnsProviders.get? provider = some keys)
    (hclean : OneLine supplied) {line : List Char}
    (hlines : entryLines supplied (keptValues (readDnsProfile file) provider) keys = .ok (line :: lines)) :
    ∃ values, readDnsProfile (some (writeLines (providerLine provider :: line :: lines))) = ⟨provider, values⟩ ∧
      ∀ key, values.get? key = if key ∈ keys then
        (supplied.filled key).or (filled ((keptValues (readDnsProfile file) provider).get? key)) else none := by
  have hkept : ∀ key value, (keptValues (readDnsProfile file) provider).get? key = some value →
      ∀ c ∈ value, isLineEnd c = false := by
    intro key value hvalue
    unfold keptValues at hvalue
    split_ifs at hvalue
    · exact readDnsProfile_oneLine hvalue
    · cases hvalue
  refine ⟨_, read_saved hkeys hlines ?_, fun key => ?_⟩
  · intro key value hvalue
    rcases Option.or_eq_some_iff.mp hvalue with hvalue | ⟨-, hvalue⟩
    · exact hclean key value hvalue
    · exact hkept key value (filled_eq_some hvalue).1
  · rw [get?_chosenValues, Dict.get?_empty, Option.or_none]
    rfl

/-- What is kept of a file is what the earlier saves left, unless the file could not be read. -/
theorem kept_read (h : Faithful (s.files saved.name) (s.saves saved.name))
    (hkeys : dnsProviders.get? saved.provider = some keys) :
    (keptValues (readDnsProfile (s.read call saved.name)) saved.provider).get? key =
      if call.unreadable then none else carried (s.saves saved.name) saved.provider key := by
  unfold State.read
  split
  · have hne : ([] : List Char) ≠ saved.provider := Ne.symm (isKey_of_provider hkeys).1.ne_nil
    rw [keptValues, readDnsProfile, noProfile, if_neg hne]
    rfl
  · exact h.keptValues hkeys

theorem filled_carried : filled (carried saves provider key) = carried saves provider key := by
  refine filled_eq_self fun value hvalue => ?_
  rw [carried] at hvalue
  split_ifs at hvalue
  exact lastSupplied_ne_nil hvalue

theorem faithful_saved (h : Faithful (s.files saved.name) (s.saves saved.name))
    (hok : saveDnsProvider (s.read call) call.payload = .ok saved) (hsupplied : call.payload.credentials = some supplied)
    (hsound : Sound s call) : Faithful (some saved.text) (⟨saved.provider, supplied⟩ :: s.saves saved.name) := by
  obtain ⟨hclean, hresent⟩ := hsound saved supplied hok hsupplied
  obtain ⟨keys, supplied', line, lines, hkeys, hsupplied', hknown, hlines, htext⟩ := saved_ok hok
  obtain rfl : supplied = supplied' := Option.some_inj.mp (hsupplied.symm.trans hsupplied')
  obtain ⟨values, hread, hvalues⟩ := read_step hkeys hclean hlines
  rw [← htext] at hread
  refine ⟨by rw [hread]; rfl, fun key => ?_, ?_⟩
  · rw [hread, hvalues, lastSupplied_cons, kept_read h hkeys]
    dsimp only
    by_cases hkey : key ∈ keys
    · rw [if_pos hkey]
      split_ifs with hunreadable
      · -- what was lost was sent again
        have hagain := hresent hunreadable key
        cases hfilled : supplied.filled key with
        | some value => rfl
        | none =>
          rw [hfilled] at hagain
          cases hcarried : carried (s.saves saved.name) saved.provider key with
          | none => rfl
          | some value => exact absurd (hagain (by rw [hcarried]; rfl)) (by simp)
      · rw [filled_carried]
    · have hnone : supplied.filled key = none := by
        cases hfilled : supplied.filled key with
        | none => rfl
        | some value => exact absurd (hknown key (supplied_eq_some hfilled).1) hkey
      rw [if_neg hkey, hnone, h.carried_unknown hkeys hkey]
      rfl
  · intro save hsave
    rcases List.mem_cons.mp hsave with rfl | hsave
    · exact ⟨keys, hkeys, hknown⟩
    · exact h.known save hsave

/-- A save that is read back right had no line end in its values and lost nothing. -/
theorem sound_of_read (h : Faithful (s.files saved.name) (s.saves saved.name))
    (hok : saveDnsProvider (s.read call) call.payload = .ok saved) (hsupplied : call.payload.credentials = some supplied)
    (hread : ∀ key, (readDnsProfile (some saved.text)).values.get? key =
      lastSupplied (⟨saved.provider, supplied⟩ :: s.saves saved.name) key) :
    OneLine supplied ∧ (call.unreadable = true → ∀ key, (carried (s.saves saved.name) saved.provider key).isSome →
      (supplied.filled key).isSome) := by
  have hclean : OneLine supplied := by
    intro key value hvalue
    have hback : (readDnsProfile (some saved.text)).values.get? key = some value := by
      rw [hread, lastSupplied_cons, hvalue]
      rfl
    exact readDnsProfile_oneLine hback
  refine ⟨hclean, fun hunreadable key hcarried => ?_⟩
  obtain ⟨keys, supplied', line, lines, hkeys, hsupplied', -, hlines, htext⟩ := saved_ok hok
  obtain rfl : supplied = supplied' := Option.some_inj.mp (hsupplied.symm.trans hsupplied')
  obtain ⟨values, hsaved, hvalues⟩ := read_step hkeys hclean hlines
  by_contra hnone
  rw [Bool.not_eq_true, Option.isSome_eq_false_iff, Option.isNone_iff_eq_none] at hnone
  have hgone : values.get? key = none := by
    rw [hvalues, kept_read h hkeys, if_pos hunreadable, hnone]
    split_ifs <;> rfl
  have hstays : values.get? key = carried (s.saves saved.name) saved.provider key := by
    have hkey := hread key
    rw [htext, hsaved, lastSupplied_cons, hnone, Option.none_or] at hkey
    exact hkey
  rw [← hstays, hgone] at hcarried
  cases hcarried

theorem step_cases (s : State) (call : Call) :
    ((∀ saved, saveDnsProvider (s.read call) call.payload ≠ .ok saved) ∧ step s call = s) ∨
      ∃ saved supplied, saveDnsProvider (s.read call) call.payload = .ok saved ∧
        call.payload.credentials = some supplied ∧
        step s call = ⟨Function.update s.files saved.name (some saved.text),
          Function.update s.saves saved.name (⟨saved.provider, supplied⟩ :: s.saves saved.name)⟩ := by
  cases hok : saveDnsProvider (s.read call) call.payload with
  | error text => exact Or.inl ⟨fun _ => by simp, by rw [step, hok]⟩
  | ok saved =>
    obtain ⟨-, supplied, -, -, -, hsupplied, -⟩ := saved_ok hok
    exact Or.inr ⟨saved, supplied, rfl, hsupplied, by rw [step, hok, hsupplied]; rfl⟩

theorem faithful_step (h : ∀ name, Faithful (s.files name) (s.saves name)) (hsound : Sound s call) :
    ∀ name, Faithful ((step s call).files name) ((step s call).saves name) := by
  rcases step_cases s call with ⟨-, hsame⟩ | ⟨saved, supplied, hok, hsupplied, hstep⟩
  · rwa [hsame]
  · intro name
    rw [hstep]
    by_cases hname : name = saved.name
    · subst hname
      simpa using faithful_saved (h saved.name) hok hsupplied hsound
    · simpa [hname] using h name

theorem sound_of_accurate (h : ∀ name, Faithful (s.files name) (s.saves name)) (hread : Accurate (step s call)) :
    Sound s call := by
  intro saved supplied hok hsupplied
  rcases step_cases s call with ⟨hnone, -⟩ | ⟨saved', supplied', hok', hsupplied', hstep⟩
  · exact absurd hok (hnone saved)
  · obtain rfl : saved = saved' := Except.ok.inj (hok.symm.trans hok')
    obtain rfl : supplied = supplied' := Option.some_inj.mp (hsupplied.symm.trans hsupplied')
    refine sound_of_read (h saved.name) hok hsupplied fun key => ?_
    have hkey := hread saved.name key
    rw [hstep] at hkey
    simpa using hkey

/-- Every profile is read back with the last values after each of some saves just where each save that
succeeds is of values without line ends and sends every stored value that it cannot read. -/
theorem accurate_along_iff (calls : List Call) :
    (∀ pre, pre <+: calls → Accurate (Machine.run step start pre)) ↔ Machine.Along step Sound start calls := by
  refine Machine.forall_prefix_iff_along_of_invariant (I := fun s => ∀ name, Faithful (s.files name) (s.saves name))
    (fun _ => faithful_start) (fun s h name => (h name).values) (fun s call h hsound => faithful_step h hsound)
    fun s call h hread => sound_of_accurate h hread

/-- A token with a vertical tab in it. -/
def cutToken : Call :=
  ⟨⟨['z', 'o', 'n', 'e'], cloudflare, some (.ofPairs [(dnsCloudflareApiToken, some ['a', '\x0b', 'b'])])⟩, false⟩

/-- The token is accepted and read back without its end. -/
theorem cutToken_not_accurate :
    (saveDnsProvider (start.read cutToken) cutToken.payload).toOption.isSome = true ∧
      ¬ Accurate (Machine.run step start [cutToken]) := by
  refine ⟨by decide, fun h => ?_⟩
  have hkey := h ['z', 'o', 'n', 'e'] dnsCloudflareApiToken
  exact absurd hkey (by decide +kernel)

end EasyHaProxy.Certs.DnsProfiles
