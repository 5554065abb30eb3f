import EasyHaProxy.Backupd.Destinations

/-! A listing is recursive below its prefix and a copy is known by the last segment of its key, while a
removal addresses a key directly under the prefix. -/
namespace EasyHaProxy.Backupd

variable {far : FarEnd} {policy : Policy} {own other name key : Name}
  {files after : Finset Name} {r : Response}

/-- A key below a prefix, at any depth. -/
def Under (bucketPrefix key : Name) : Prop := s3Query bucketPrefix <+: key

/-- A key whose last segment comes right after the prefix. -/
def Directly (bucketPrefix key : Name) : Prop :=
  ∃ name : Name, '/' ∉ name ∧ key = s3Key bucketPrefix name

/-- The prefix `other` is empty, equal to `own` or an ancestor of it. -/
def Encloses (other own : Name) : Prop := Under other (s3Query own)

theorem s3Key_eq (bucketPrefix name : Name) : s3Key bucketPrefix name = s3Query bucketPrefix ++ name := by
  unfold s3Key s3Query
  split <;> simp

/-- A query is empty or ends with its slash. -/
theorem s3Query_last {c : Char} (h : (s3Query own).getLast? = some c) : c = '/' := by
  unfold s3Query at h
  split at h
  · simp at h
  · simpa [eq_comm] using h

theorem s3Query_injective (h : s3Query own = s3Query other) : stripSlashes own = stripSlashes other := by
  unfold s3Query at h
  split at h <;> split at h <;> rename_i ho hq
  · rw [ho, hq]
  · exact absurd h (by simp)
  · exact absurd h (by simp)
  · simpa using h

/-- A prefix that reaches a key directly under `own` reaches no further than `own`. -/
theorem prefix_of_prefix_append {q p n : List Char} (hlast : ∀ c, q.getLast? = some c → c = '/')
    (hn : '/' ∉ n) (h : q <+: p ++ n) : q <+: p := by
  rcases List.prefix_or_prefix_of_prefix h (List.prefix_append p n) with h' | ⟨m, rfl⟩
  · exact h'
  · have hm : m <+: n := (List.prefix_append_right_inj p).mp h
    rcases List.eq_nil_or_concat m with rfl | ⟨front, c, rfl⟩
    · simp
    · have hc : c = '/' := hlast c (by simp [← List.append_assoc])
      exact absurd (hm.subset (by simp [hc])) hn

theorem under_s3Key (hn : '/' ∉ name) : Under other (s3Key own name) ↔ Encloses other own := by
  rw [Under, s3Key_eq]
  constructor
  · exact prefix_of_prefix_append (fun c hc => s3Query_last hc) hn
  · exact fun h => h.trans (List.prefix_append _ _)

theorem directly_s3Key (hn : '/' ∉ name) (h : Directly other (s3Key own name)) :
    stripSlashes own = stripSlashes other := by
  obtain ⟨m, hm, he⟩ := h
  rw [s3Key_eq, s3Key_eq] at he
  have h1 : s3Query own <+: s3Query other :=
    prefix_of_prefix_append (fun c hc => s3Query_last hc) hm ⟨name, he⟩
  have h2 : s3Query other <+: s3Query own :=
    prefix_of_prefix_append (fun c hc => s3Query_last hc) hn ⟨m, he.symm⟩
  exact s3Query_injective (h1.eq_of_length (le_antisymm h1.length_le h2.length_le))

/-! ## What a listing shows -/

theorem mem_archiveNames {paths : List Name} :
    name ∈ archiveNames paths ↔ ∃ path ∈ paths, baseName path = name ∧ isArchive name = true := by
  simp only [archiveNames, List.mem_insertionSort, List.mem_filter, List.mem_map]
  constructor
  · rintro ⟨⟨path, hp, rfl⟩, ha⟩
    exact ⟨path, hp, rfl, ha⟩
  · rintro ⟨path, hp, rfl, ha⟩
    exact ⟨⟨path, hp, rfl⟩, ha⟩

theorem slash_notMem_baseName (path : Name) : '/' ∉ baseName path := by
  intro h
  simpa using List.mem_rtakeWhile_imp h

theorem slash_notMem_of_listed (h : name ∈ s3Listing far own files) : '/' ∉ name := by
  unfold s3Listing at h
  split at h
  · simp at h
  · obtain ⟨path, -, rfl, -⟩ := mem_archiveNames.mp h
    exact slash_notMem_baseName path

/-- The answer names every key below the prefix: it fits in one page of the service and in the part
of the body that is read. -/
def Complete (far : FarEnd) (bucketPrefix : Name) (files : Finset Name) : Prop :=
  ∃ body, far.body files (s3Query bucketPrefix) = some body ∧
    ∀ key, key ∈ keysIn body.length body ↔ key ∈ files ∧ Under bucketPrefix key

/-- No dated archive lies deeper below the prefix. -/
def Flat (bucketPrefix : Name) (files : Finset Name) : Prop :=
  ∀ key ∈ files, Under bucketPrefix key → isArchive (baseName key) = true → (dayOf (baseName key)).isSome →
    Directly bucketPrefix key

theorem baseName_s3Key (own : Name) (hn : '/' ∉ name) : baseName (s3Key own name) = name := by
  have hall : ∀ c ∈ name, decide (c ≠ '/') = true := by
    intro c hc
    rw [decide_eq_true_iff]
    rintro rfl
    exact hn hc
  rw [s3Key_eq, baseName]
  rcases List.eq_nil_or_concat (s3Query own) with hq | ⟨front, c, hq⟩
  · rw [hq, List.nil_append, List.rtakeWhile_eq_self_iff.mpr hall]
  · have hlast : (s3Query own).getLast? = some c := by
      rw [hq]
      simp
    obtain rfl : c = '/' := s3Query_last hlast
    rw [hq, List.rtakeWhile, List.reverse_append, List.takeWhile_append_of_pos
      (fun c hm => hall c (List.mem_reverse.mp hm))]
    simp

/-- Of a flat prefix the listing shows the dated copies directly under it. -/
theorem mem_s3Listing (hc : Complete far own files) (hf : Flat own files) (hd : (dayOf name).isSome) :
    name ∈ s3Listing far own files ↔
      isArchive name = true ∧ '/' ∉ name ∧ s3Key own name ∈ files := by
  obtain ⟨body, hbody, hkeys⟩ := hc
  have hlist : s3Listing far own files = archiveNames (keysIn body.length body) := by
    rw [s3Listing, hbody]
  rw [hlist, mem_archiveNames]
  constructor
  · rintro ⟨path, hp, rfl, ha⟩
    obtain ⟨hm, hu⟩ := (hkeys path).mp hp
    obtain ⟨n, hn, rfl⟩ := hf path hm hu ha hd
    rw [baseName_s3Key own hn] at ha ⊢
    exact ⟨ha, hn, hm⟩
  · rintro ⟨ha, hn, hm⟩
    refine ⟨s3Key own name, (hkeys _).mpr ⟨hm, ?_⟩, baseName_s3Key own hn, ha⟩
    rw [Under, s3Key_eq]
    exact List.prefix_append _ _

theorem retained_congr {listed listed' : List Name} {day : Name}
    (h : ∀ n, (dayOf n).isSome → (n ∈ listed ↔ n ∈ listed')) :
    Retained policy listed day name ↔ Retained policy listed' day name := by
  have hdates : dates listed = dates listed' := by
    ext d
    simp only [dates, List.mem_toFinset, List.mem_filterMap]
    refine exists_congr fun n => and_congr_left fun hd => h n ?_
    simp [hd]
  have hlast : (∀ n ∈ listed, dayOf n = some day → n ≤ name) ↔
      ∀ n ∈ listed', dayOf n = some day → n ≤ name := by
    refine forall_congr' fun n => ?_
    constructor
    · exact fun hn hm hd => hn ((h n (by simp [hd])).mpr hm) hd
    · exact fun hn hm hd => hn ((h n (by simp [hd])).mp hm) hd
  constructor
  · exact fun hr => ⟨hlast.mp hr.last, hdates ▸ hr.kept⟩
  · exact fun hr => ⟨hlast.mpr hr.last, hdates ▸ hr.kept⟩

/-- Retention sees the dated names only. -/
theorem victims_congr {listed listed' : List Name}
    (h : ∀ n, (dayOf n).isSome → (n ∈ listed ↔ n ∈ listed')) :
    name ∈ retentionVictims listed policy ↔ name ∈ retentionVictims listed' policy := by
  cases hd : dayOf name with
  | none => simp [not_mem_retentionVictims hd]
  | some day => rw [mem_retentionVictims hd, mem_retentionVictims hd, h name (by simp [hd]), retained_congr h]

/-! ## What an upload does to the bucket -/

/-- The listing an upload prunes by. -/
def listed (far : FarEnd) (own name : Name) (files : Finset Name) : List Name :=
  s3Listing far own (put far.storesChecksum (.s3 own) name files)

theorem mem_after_s3 (h : uploadBackup far ⟨.s3 own, policy⟩ name files = (.ok r, after)) (hm : key ∈ files) :
    key ∈ after ↔ ((∃ victim ∈ retentionVictims (listed far own name files) policy,
      key = s3Key own victim ∨ key = s3Key own (checksumName victim)) → far.removes key = false) := by
  have hok : r.ok = true := by
    unfold uploadBackup at h
    split at h
    · cases h
    · split at h
      · rename_i hp
        cases hp
      · obtain ⟨rfl, -⟩ := Except.ok.inj (congrArg Prod.fst h)
        rfl
  have hput : key ∈ put far.storesChecksum (.s3 own) name files := by
    unfold put
    cases far.storesChecksum <;> simp [hm]
  rw [stored_of_ok h hok, mem_prune, and_iff_right hput]
  rfl

def Expired (policy : Policy) (names : List Name) (name : Name) : Prop :=
  name ∈ names ∧ ∃ day, dayOf name = some day ∧ ¬ Retained policy names day name

theorem mem_victims_iff {names : List Name} :
    name ∈ retentionVictims names policy ↔ Expired policy names name := by
  cases hd : dayOf name with
  | none => simp [not_mem_retentionVictims hd, Expired, hd]
  | some day => simp [mem_retentionVictims hd, Expired, hd]

theorem slash_notMem_checksumName (hn : '/' ∉ name) : '/' ∉ (checksumName name) := by
  simp [checksumName, hn, suffixes.2.2.1]

theorem directly_of_removed (h : uploadBackup far ⟨.s3 own, policy⟩ name files = (.ok r, after))
    (hm : key ∈ files) (hgone : key ∉ after) :
    ∃ victim, Expired policy (listed far own name files) victim ∧ far.removes key = true ∧
      '/' ∉ victim ∧ (key = s3Key own victim ∨ key = s3Key own (checksumName victim)) := by
  rw [mem_after_s3 h hm, Classical.not_imp] at hgone
  obtain ⟨⟨victim, hv, hkey⟩, hr⟩ := hgone
  have hexp := mem_victims_iff.mp hv
  exact ⟨victim, hexp, by simpa using hr, slash_notMem_of_listed hexp.1, hkey⟩

theorem key_directly {victim : Name} (hn : '/' ∉ victim)
    (hkey : key = s3Key own victim ∨ key = s3Key own (checksumName victim)) :
    ∃ n, '/' ∉ n ∧ key = s3Key own n := by
  rcases hkey with rfl | rfl
  · exact ⟨victim, hn, rfl⟩
  · exact ⟨checksumName victim, slash_notMem_checksumName hn, rfl⟩

theorem mem_put_congr {files' : Finset Name} (h : key ∈ files ↔ key ∈ files') :
    key ∈ put far.storesChecksum (.s3 own) name files ↔
      key ∈ put far.storesChecksum (.s3 own) name files' := by
  unfold put
  cases far.storesChecksum <;> simp [h]

/-- What an upload to one prefix of a bucket leaves of another, and what its pruning depends on. -/
theorem prefixes_keep_apart (far : FarEnd) (policy : Policy) (own other name : Name)
    (files after : Finset Name) (r : Response) (hne : stripSlashes own ≠ stripSlashes other)
    (h : uploadBackup far ⟨.s3 own, policy⟩ name files = (.ok r, after)) :
    ((∀ key ∈ files, Under other key → key ∈ after) ↔
      (Encloses other own → ∀ victim, Expired policy (listed far own name files) victim →
        (s3Key own victim ∈ files → far.removes (s3Key own victim) = false) ∧
        (s3Key own (checksumName victim) ∈ files →
          far.removes (s3Key own (checksumName victim)) = false))) ∧
    (∀ key ∈ files, Directly other key → key ∈ after) ∧
    (∀ files' after' r', uploadBackup far ⟨.s3 own, policy⟩ name files' = (.ok r', after') →
      (∀ key, Directly own key → (key ∈ files ↔ key ∈ files')) →
      (∀ content ∈ [files, files'], Complete far own (put far.storesChecksum (.s3 own) name content) ∧
        Flat own (put far.storesChecksum (.s3 own) name content)) →
      ∀ key ∈ files, Directly own key → (key ∈ after ↔ key ∈ after')) := by
  refine ⟨⟨fun hall henc victim hexp => ?_, fun hcond key hm hu => ?_⟩, fun key hm hd => ?_,
    fun files' after' r' h' hsame hgood key hm hd => ?_⟩
  · have hn : '/' ∉ victim := slash_notMem_of_listed hexp.1
    refine ⟨fun hm => ?_, fun hm => ?_⟩
    · have hin := hall _ hm ((under_s3Key hn).mpr henc)
      exact (mem_after_s3 h hm).mp hin ⟨victim, mem_victims_iff.mpr hexp, Or.inl rfl⟩
    · have hin := hall _ hm ((under_s3Key (slash_notMem_checksumName hn)).mpr henc)
      exact (mem_after_s3 h hm).mp hin ⟨victim, mem_victims_iff.mpr hexp, Or.inr rfl⟩
  · by_contra hgone
    obtain ⟨victim, hexp, hr, hn, hkey⟩ := directly_of_removed h hm hgone
    rcases hkey with rfl | rfl
    · have hfalse := (hcond ((under_s3Key hn).mp hu) victim hexp).1 hm
      rw [hr] at hfalse
      cases hfalse
    · have hfalse := (hcond ((under_s3Key (slash_notMem_checksumName hn)).mp hu) victim hexp).2 hm
      rw [hr] at hfalse
      cases hfalse
  · by_contra hgone
    obtain ⟨victim, -, -, hn, hkey⟩ := directly_of_removed h hm hgone
    obtain ⟨n, hn, rfl⟩ := key_directly hn hkey
    exact hne (directly_s3Key hn hd)
  · obtain ⟨hc, hf⟩ := hgood files (by simp)
    obtain ⟨hc', hf'⟩ := hgood files' (by simp)
    have hlisted : ∀ n, (dayOf n).isSome →
        (n ∈ listed far own name files ↔ n ∈ listed far own name files') := by
      intro n hday
      rw [listed, listed, mem_s3Listing hc hf hday, mem_s3Listing hc' hf' hday]
      refine and_congr_right fun _ => and_congr_right fun hn => ?_
      exact mem_put_congr (hsame _ ⟨n, hn, rfl⟩)
    rw [mem_after_s3 h hm, mem_after_s3 h' ((hsame key hd).mp hm)]
    simp only [victims_congr hlisted]

/-! ## A service that answers in full -/

def keyElement (key : Name) : List Char := openTag ++ key ++ closeTag

def bodyTag : List Char :=
  ['<', 'L', 'i', 's', 't', 'B', 'u', 'c', 'k', 'e', 't', 'R', 'e', 's', 'u', 'l', 't', '>']

def listBody (keys : List Name) : List Char := bodyTag ++ keys.flatMap keyElement

/-- A key whose text the body shows as it is. -/
def PlainKey (key : Name) : Prop := key ≠ [] ∧ '<' ∉ key

theorem keysIn_skip {fuel : Nat} {c : Char} {text : List Char} (hc : c ≠ '<') :
    keysIn (fuel + 1) (c :: text) = keysIn fuel text := by
  simp [keysIn, openTag, Ne.symm hc]

theorem keysIn_key {fuel : Nat} {rest : List Char} (h : PlainKey key) :
    keysIn (fuel + 1) (keyElement key ++ rest) = key :: keysIn fuel rest := by
  have hall : ∀ c ∈ key, decide (c ≠ '<') = true := by
    intro c hc
    rw [decide_eq_true_iff]
    rintro rfl
    exact h.2 hc
  have htake : (key ++ closeTag ++ rest).takeWhile (· ≠ '<') = key := by
    rw [List.append_assoc, List.takeWhile_append_of_pos hall]
    simp [closeTag]
  have hdrop : (key ++ closeTag ++ rest).dropWhile (· ≠ '<') = closeTag ++ rest := by
    rw [List.append_assoc, List.dropWhile_append_of_pos hall]
    simp [closeTag]
  have hshape : keyElement key ++ rest = '<' :: 'K' :: 'e' :: 'y' :: '>' :: (key ++ closeTag ++ rest) := by
    simp [keyElement, openTag]
  rw [hshape, keysIn]
  simp only [List.drop_succ_cons, List.drop_zero]
  rw [htake, hdrop, if_pos ⟨by simp [openTag], h.1, by simp [closeTag]⟩]
  rfl

theorem keysIn_keys {keys : List Name} (h : ∀ key ∈ keys, PlainKey key) {fuel : Nat}
    (hf : keys.length ≤ fuel) : keysIn fuel (keys.flatMap keyElement) = keys := by
  induction keys generalizing fuel with
  | nil => cases fuel <;> simp [keysIn]
  | cons key keys ih =>
    obtain ⟨fuel, rfl⟩ : ∃ k, fuel = k + 1 := ⟨fuel - 1, by simp at hf; omega⟩
    rw [List.flatMap_cons, keysIn_key (h key List.mem_cons_self),
      ih (fun k hk => h k (List.mem_cons_of_mem _ hk)) (by simpa using hf)]

theorem length_le_flatMap (keys : List Name) : keys.length ≤ (keys.flatMap keyElement).length := by
  induction keys with
  | nil => simp
  | cons key keys ih =>
    have hkey : 1 ≤ (keyElement key).length := by
      simp [keyElement, openTag]
    rw [List.flatMap_cons, List.length_append, List.length_cons]
    omega

theorem keysIn_open (l : List Char) :
    keysIn (bodyTag ++ l).length (bodyTag ++ l) = keysIn l.length l := by
  have hfirst (fuel : Nat) (text : List Char) :
      keysIn (fuel + 1) ('<' :: 'L' :: text) = keysIn fuel ('L' :: text) := by
    simp [keysIn, openTag]
  simp only [bodyTag, List.cons_append, List.nil_append, List.length_cons, hfirst]
  repeat rw [keysIn_skip (by decide)]

theorem keysIn_listBody {keys : List Name} (h : ∀ key ∈ keys, PlainKey key) :
    keysIn (listBody keys).length (listBody keys) = keys :=
  (keysIn_open _).trans (keysIn_keys h (length_le_flatMap keys))

def bucket (keys : Finset Name → Name → List Name) : FarEnd where
  stores := true
  storesChecksum := true
  verified := true
  rows := fun _ => none
  body := fun files query => some (listBody (keys files query))
  removes := fun _ => true

theorem s3Listing_bucket {keys : Finset Name → Name → List Name}
    (h : ∀ key ∈ keys files (s3Query own), PlainKey key) :
    s3Listing (bucket keys) own files = archiveNames (keys files (s3Query own)) :=
  congrArg archiveNames (keysIn_listBody h)

theorem uploadBackup_bucket (keys : Finset Name → Name → List Name) (own name : Name)
    (policy : Policy) (files : Finset Name) :
    uploadBackup (bucket keys) ⟨.s3 own, policy⟩ name files =
      (.ok ⟨true, reported (bucket keys) (.s3 own)
        (retentionVictims (listed (bucket keys) own name files) policy)⟩,
        prune (bucket keys) (.s3 own) (retentionVictims (listed (bucket keys) own name files) policy)
          (put true (.s3 own) name files)) := rfl

theorem new_mem_after_bucket {keys : Finset Name → Name → List Name} (hname : isArchive name = true) :
    s3Key own name ∈ (uploadBackup (bucket keys) ⟨.s3 own, policy⟩ name files).2 ↔
      name ∉ retentionVictims (listed (bucket keys) own name files) policy := by
  rw [uploadBackup_bucket]
  refine (mem_after_upload hname (uploadBackup_bucket keys own name policy files) rfl).trans ?_
  refine imp_congr_right fun _ => ?_
  simp [bucket]

/-! Two destinations, at the root of a bucket and below `b`, that were sent to on the same day. -/

def newCopy : Name := remoteArchiveName "20260812-110000".toList (List.replicate 32 '2')

/-- The other destination's copy was made an hour later. -/
def laterCopy : Name := remoteArchiveName "20260812-120000".toList (List.replicate 32 '3')

/-- What the names and the two prefixes evaluate to. -/
theorem copies : (isArchive newCopy = true ∧ '/' ∉ newCopy ∧ '<' ∉ newCopy) ∧
    (isArchive laterCopy = true ∧ '/' ∉ laterCopy ∧ '<' ∉ laterCopy) ∧
    (dayOf newCopy = some "2026-08-12".toList ∧ dayOf laterCopy = some "2026-08-12".toList ∧
      ¬ laterCopy ≤ newCopy) ∧
    (newCopy ≠ [] ∧ s3Query ['a'] = ['a', '/'] ∧ s3Query ['b'] = ['b', '/']) ∧
    s3Key ['b'] laterCopy ∉ ({checksumName newCopy, newCopy} : Finset Name) := by
  decide +kernel

theorem newCopy_chars : isArchive newCopy = true ∧ '/' ∉ newCopy ∧ '<' ∉ newCopy := copies.1

theorem laterCopy_chars : isArchive laterCopy = true ∧ '/' ∉ laterCopy ∧ '<' ∉ laterCopy := copies.2.1

theorem dayOf_copies : dayOf newCopy = some "2026-08-12".toList ∧
    dayOf laterCopy = some "2026-08-12".toList :=
  ⟨copies.2.2.1.1, copies.2.2.1.2.1⟩

theorem s3Query_letter : s3Query ['a'] = ['a', '/'] ∧ s3Query ['b'] = ['b', '/'] := copies.2.2.2.1.2

def rootBucket : FarEnd := bucket fun files _ =>
  if s3Key ['b'] laterCopy ∈ files then [s3Key ['b'] laterCopy, newCopy, checksumName newCopy]
  else [newCopy, checksumName newCopy]

theorem s3Key_root (n : Name) : s3Key [] n = n := rfl

theorem plainKey_letter {n : Name} {c : Char} (hn : '<' ∉ n) (hq : s3Query own = [c, '/']) (hc : c ≠ '<') :
    PlainKey (s3Key own n) := by
  rw [s3Key_eq, hq]
  exact ⟨by simp, by simp [hn, Ne.symm hc]⟩

theorem plainKey_newCopy : PlainKey newCopy ∧ PlainKey (checksumName newCopy) := by
  refine ⟨⟨copies.2.2.2.1.1, newCopy_chars.2.2⟩, ?_, ?_⟩
  · simp [checksumName, copies.2.2.2.1.1]
  · simp [checksumName, newCopy_chars.2.2, suffixes.2.2.2]

theorem mem_rootListing : name ∈ s3Listing rootBucket [] files ↔
    (name = laterCopy ∧ s3Key ['b'] laterCopy ∈ files) ∨ name = newCopy := by
  have hbase : baseName newCopy = newCopy := baseName_s3Key [] newCopy_chars.2.1
  have hsum : baseName (checksumName newCopy) = checksumName newCopy :=
    baseName_s3Key [] (slash_notMem_checksumName newCopy_chars.2.1)
  have hlater : baseName (s3Key ['b'] laterCopy) = laterCopy := baseName_s3Key ['b'] laterCopy_chars.2.1
  have hnot : isArchive (checksumName newCopy) ≠ true := fun ha => ne_checksumName ha rfl
  rw [rootBucket, s3Listing_bucket, mem_archiveNames]
  · by_cases hf : s3Key ['b'] laterCopy ∈ files
    · simp only [hf, if_true, List.mem_cons, List.not_mem_nil, or_false, exists_eq_or_imp,
        exists_eq_left, hlater, hbase, hsum, and_true]
      constructor
      · rintro (⟨rfl, -⟩ | ⟨rfl, -⟩ | ⟨rfl, ha⟩)
        · exact Or.inl rfl
        · exact Or.inr rfl
        · exact absurd ha hnot
      · rintro (rfl | rfl)
        · exact Or.inl ⟨rfl, laterCopy_chars.1⟩
        · exact Or.inr (Or.inl ⟨rfl, newCopy_chars.1⟩)
    · simp only [hf, if_false, List.mem_cons, List.not_mem_nil, or_false, exists_eq_or_imp,
        exists_eq_left, hbase, hsum, and_false, false_or]
      constructor
      · rintro (⟨rfl, -⟩ | ⟨rfl, ha⟩)
        · rfl
        · exact absurd ha hnot
      · rintro rfl
        exact Or.inl ⟨rfl, newCopy_chars.1⟩
  · intro key hk
    have hmem : key = s3Key ['b'] laterCopy ∨ key = newCopy ∨ key = checksumName newCopy := by
      split at hk
      · simpa using hk
      · exact Or.inr (by simpa using hk)
    rcases hmem with rfl | rfl | rfl
    · exact plainKey_letter laterCopy_chars.2.2 s3Query_letter.2 (by decide)
    · exact plainKey_newCopy.1
    · exact plainKey_newCopy.2

theorem mem_listed_root : laterCopy ∈ listed rootBucket [] newCopy {s3Key ['b'] laterCopy} ∧
    newCopy ∈ listed rootBucket [] newCopy {s3Key ['b'] laterCopy} := by
  rw [listed, mem_rootListing, mem_rootListing]
  exact ⟨Or.inl ⟨rfl, by simp [put, rootBucket, bucket]⟩, Or.inr rfl⟩

theorem listed_root (h : name ∈ listed rootBucket [] newCopy ∅) : name = newCopy := by
  rw [listed, mem_rootListing] at h
  rcases h with ⟨-, h⟩ | h
  · exact absurd h copies.2.2.2.2
  · exact h

/-- Whether the destination at the root keeps its only copy of the day is decided by a copy below
the prefix of the other. -/
theorem nested_copy_decides :
    stripSlashes [] ≠ stripSlashes ['b'] ∧ ¬ Directly [] (s3Key ['b'] laterCopy) ∧
      s3Key [] newCopy ∈ (uploadBackup rootBucket ⟨.s3 [], ⟨1, 0, 0⟩⟩ newCopy ∅).2 ∧
      s3Key [] newCopy ∉
        (uploadBackup rootBucket ⟨.s3 [], ⟨1, 0, 0⟩⟩ newCopy {s3Key ['b'] laterCopy}).2 := by
  refine ⟨by decide, ?_, ?_, ?_⟩
  · rintro ⟨name, hn, he⟩
    rw [s3Key_root, s3Key_eq, s3Query_letter.2] at he
    exact hn (he ▸ by simp)
  · rw [rootBucket, new_mem_after_bucket newCopy_chars.1, ← rootBucket,
      mem_retentionVictims dayOf_copies.1, not_and_not_right]
    refine fun _ => retained_of_last (fun n hn => (listed_root hn).le) ?_ (by decide)
    intro d hd
    obtain ⟨n, hn, hday⟩ := List.mem_filterMap.mp (List.mem_toFinset.mp hd)
    rw [listed_root hn, dayOf_copies.1] at hday
    exact (Option.some.inj hday).ge
  · rw [rootBucket, new_mem_after_bucket newCopy_chars.1, ← rootBucket,
      mem_retentionVictims dayOf_copies.1, not_not]
    exact ⟨mem_listed_root.2, fun hr =>
      copies.2.2.1.2.2 (hr.last laterCopy mem_listed_root.1 dayOf_copies.2)⟩

/-- A bucket that lists everything below a prefix. -/
noncomputable def wholeBucket : FarEnd := bucket fun files query => (files.filter fun key => query <+: key).toList

theorem complete_wholeBucket (h : ∀ key ∈ files, PlainKey key) : Complete wholeBucket own files := by
  refine ⟨_, rfl, fun key => ?_⟩
  rw [keysIn_listBody fun k hk => h k (Finset.mem_filter.mp (Finset.mem_toList.mp hk)).1,
    Finset.mem_toList, Finset.mem_filter]
  rfl

/-- What the prefix `a` holds after an upload, beside a copy of the destination `b`. -/
theorem aside_content {content : Finset Name} {key : Name}
    (hc : content ⊆ {s3Key ['a'] laterCopy, s3Key ['b'] laterCopy})
    (h : key ∈ put true (.s3 ['a']) newCopy content) :
    PlainKey key ∧ (Under ['a'] key → Directly ['a'] key) := by
  have hin : key = s3Key ['a'] (checksumName newCopy) ∨ key = s3Key ['a'] newCopy ∨
      key = s3Key ['a'] laterCopy ∨ key = s3Key ['b'] laterCopy := by
    rw [put, if_pos rfl, Finset.mem_insert, Finset.mem_insert] at h
    rcases h with h | h | h
    · exact Or.inl h
    · exact Or.inr (Or.inl h)
    · have hsub := hc h
      simp only [Finset.mem_insert, Finset.mem_singleton] at hsub
      exact Or.inr (Or.inr hsub)
  rcases hin with rfl | rfl | rfl | rfl
  · exact ⟨plainKey_letter plainKey_newCopy.2.2 s3Query_letter.1 (by decide),
      fun _ => ⟨_, slash_notMem_checksumName newCopy_chars.2.1, rfl⟩⟩
  · exact ⟨plainKey_letter newCopy_chars.2.2 s3Query_letter.1 (by decide),
      fun _ => ⟨_, newCopy_chars.2.1, rfl⟩⟩
  · exact ⟨plainKey_letter laterCopy_chars.2.2 s3Query_letter.1 (by decide),
      fun _ => ⟨_, laterCopy_chars.2.1, rfl⟩⟩
  · refine ⟨plainKey_letter laterCopy_chars.2.2 s3Query_letter.2 (by decide), fun hu => ?_⟩
    rw [under_s3Key laterCopy_chars.2.1, Encloses, Under, s3Query_letter.1, s3Query_letter.2] at hu
    exact absurd hu (by decide)

theorem prefixes_keep_apart_aside :
    s3Key ['b'] laterCopy ∈ (uploadBackup wholeBucket ⟨.s3 ['a'], ⟨1, 0, 0⟩⟩ newCopy
        {s3Key ['a'] laterCopy, s3Key ['b'] laterCopy}).2 ∧
      (s3Key ['a'] laterCopy ∈ (uploadBackup wholeBucket ⟨.s3 ['a'], ⟨1, 0, 0⟩⟩ newCopy
          {s3Key ['a'] laterCopy, s3Key ['b'] laterCopy}).2 ↔
        s3Key ['a'] laterCopy ∈ (uploadBackup wholeBucket ⟨.s3 ['a'], ⟨1, 0, 0⟩⟩ newCopy
          {s3Key ['a'] laterCopy}).2) := by
  have hne : stripSlashes ['a'] ≠ stripSlashes ['b'] := by decide
  have h := prefixes_keep_apart wholeBucket ⟨1, 0, 0⟩ ['a'] ['b'] newCopy
    {s3Key ['a'] laterCopy, s3Key ['b'] laterCopy} _ _ hne
    (uploadBackup_bucket _ ['a'] newCopy ⟨1, 0, 0⟩ _)
  refine ⟨h.2.1 _ (by simp) ⟨laterCopy, laterCopy_chars.2.1, rfl⟩, ?_⟩
  refine h.2.2 {s3Key ['a'] laterCopy} _ _ (uploadBackup_bucket _ ['a'] newCopy ⟨1, 0, 0⟩ _) ?_ ?_ _
    (by simp) ⟨laterCopy, laterCopy_chars.2.1, rfl⟩
  · intro key hd
    simp only [Finset.mem_insert, Finset.mem_singleton, or_iff_left_iff_imp]
    rintro rfl
    exact absurd (directly_s3Key laterCopy_chars.2.1 hd).symm hne
  · intro content hc
    have hsub : content ⊆ {s3Key ['a'] laterCopy, s3Key ['b'] laterCopy} := by
      simp only [List.mem_cons, List.not_mem_nil, or_false] at hc
      rcases hc with rfl | rfl <;> simp
    exact ⟨complete_wholeBucket fun key hk => (aside_content hsub hk).1,
      fun key hk hu _ _ => (aside_content hsub hk).2 hu⟩

end EasyHaProxy.Backupd
