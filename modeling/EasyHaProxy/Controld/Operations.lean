import EasyHaProxy.Controld.Begin

/-! Every request and every move of the daemon keeps the invariant, write by write, and only a confirmation
in time confirms. -/
namespace EasyHaProxy.Controld

variable {d : Daemon} {late : Prop} {op : Op} {I : Script → Prop} {s s' : World}
  {t : Transaction} {req : BeginRequest} {cap : Host}

theorem Verified.candidate (hv : Verified d s t) (hsha : Function.Injective d.sha256) (hr : Recorded d t req)
    (hh : Holds d t req cap) : Candidate d s req := by
  refine ⟨hsha (hv.config.trans hr.config), fun name content hget => ?_, fun entries hentries => ?_,
    fun selection hselection => ?_⟩
  · have hkept : t.candidateSourceSha256.get? name = some (d.sha256 content) := by
      rw [hr.sources, Dict.get?_mapValues, hget]
      rfl
    obtain ⟨live, hlive, heq⟩ := Option.map_eq_some_iff.mp (hv.sources name _ hkept)
    rw [hlive, hsha heq]
  · cases ha : t.allowlist with
    | none => simp [hh.allowlistAsked ha] at hentries
    | some a =>
      obtain ⟨-, entries', raw, hentries', hraw, hkept⟩ := hh.allowlist a ha
      obtain rfl : entries' = entries := Option.some.inj (hentries'.symm.trans hentries)
      obtain ⟨live, hlive, heq⟩ := Option.map_eq_some_iff.mp (hv.allowlist a ha)
      rw [hlive, hraw, hsha (heq.trans hkept)]
  · cases hg : t.geoip with
    | none => simp [hh.geoipAsked hg] at hselection
    | some g =>
      obtain ⟨-, -, hasked, hfinger⟩ := hh.geoip g hg
      obtain rfl : g.candidateSelection = selection := Option.some.inj (hasked.symm.trans hselection)
      obtain ⟨f, release, hf, hlive, -, hrelease, hserves, -⟩ := hv.geoip g hg
      obtain ⟨hne, hkept⟩ := hfinger f hf
      refine ⟨?_, release, hrelease, hserves⟩
      have hraw : s.host.selection.getD [] = d.selectionRaw g.candidateSelection := hsha (hlive.symm.trans hkept)
      cases hsel : s.host.selection with
      | none =>
        rw [hsel] at hraw
        exact absurd hraw.symm hne
      | some raw =>
        rw [hsel] at hraw
        exact congrArg some hraw

section Verifying

variable (hI : Closed I)

include hI

theorem wp_verifyAdminAllowlist {Q : Unit → World → Prop} {E : Exc → World → Prop} {G : World → Write → World → Prop}
    (hQ : (∀ a, t.allowlist = some a → s.host.allowlist.map d.sha256 = some a.candidateSha256) → Q () s)
    (hE : ∀ e, E e s) : WP I G (d.verifyTransactionAdminAllowlistCandidate t) Q E s := by
  unfold Daemon.verifyTransactionAdminAllowlistCandidate
  cases ha : t.allowlist with
  | none => exact WP.pure (hQ fun a h => by simp [ha] at h)
  | some admin =>
    refine WP.bind (wp_readHost hI ?_ fun _ => hE _)
    refine wp_require (fun hlive => hQ fun a h => ?_) fun _ => hE _
    obtain rfl : admin = a := Option.some.inj (ha.symm.trans h)
    exact hlive

theorem wp_verifyGeoip {Q : Unit → World → Prop} {E : Exc → World → Prop} {G : World → Write → World → Prop}
    (hQ : (∀ g, t.geoip = some g → ∃ f release, g.candidateFingerprint = some f ∧
      f.selectionSha256 = d.sha256 (s.host.selection.getD []) ∧ f.release = s.host.release ∧
      s.releases s.host.release = some release ∧ release.serves g.candidateSelection ∧
      f.databaseSha256 = release.databaseSha256 ∧ f.allowedSha256 = release.allowedSha256) → Q () s)
    (hE : ∀ e, E e s) : WP I G (d.verifyTransactionGeoipCandidate t) Q E s := by
  unfold Daemon.verifyTransactionGeoipCandidate
  cases hg : t.geoip with
  | none => exact WP.pure (hQ fun g h => by simp [hg] at h)
  | some geoip =>
    dsimp only
    cases hf : geoip.candidateFingerprint with
    | none => exact WP.throw (hE _)
    | some expected =>
      refine WP.bind (wp_geoipRuntimeFingerprint hI ?_ hE)
      intro f release hsha hname hrelease hserves hdatabase hallowed
      refine wp_require (fun heq => hQ fun g h => ?_) fun _ => hE _
      obtain rfl : geoip = g := Option.some.inj (hg.symm.trans h)
      subst heq
      exact ⟨f, release, hf, hsha, hname, hrelease, hserves, hdatabase, hallowed⟩

theorem wp_verifyLive {Q : Unit → World → Prop} {E : Exc → World → Prop} {G : World → Write → World → Prop}
    (hQ : Verified d s t → Q () s) (hE : ∀ e, E e s) :
    WP I G (d.verifyLiveTransactionCandidate t) Q E s := by
  refine WP.bind (wp_readHost hI ?_ fun _ => hE _)
  refine WP.bind (wp_require (fun _ => ?_) fun _ => hE _)
  refine WP.bind (wp_require (fun hconfig => ?_) fun _ => hE _)
  refine WP.bind (wp_require (fun hnamed => ?_) fun _ => hE _)
  -- the entries that are not ahead any more have been found in place
  refine WP.bind ((WP.forM (J := fun rest s' => s' = s ∧ ∀ e ∈ t.candidateSourceSha256.entries, e ∉ rest →
    (s.host.sources e.1).map d.sha256 = some e.2) ⟨rfl, fun e he hn => absurd he hn⟩ ?_).mono ?_ fun _ _ he => he)
  · rintro x rest s' _ ⟨rfl, hdone⟩
    refine WP.bind (wp_readHost hI ?_ fun _ => hE _)
    refine wp_require (fun hlive => ⟨rfl, fun e he hn => ?_⟩) fun _ => hE _
    by_cases hx : e = x
    · rw [hx]
      exact hlive
    · exact hdone e he fun hin => (List.mem_cons.mp hin).elim hx hn
  · rintro _ s' ⟨rfl, hdone⟩
    refine WP.bind (wp_verifyAdminAllowlist hI (fun hallowlist => ?_) hE)
    refine wp_verifyGeoip hI (fun hgeoip => hQ ⟨hconfig, hnamed, fun name sha hget => ?_, hallowlist, hgeoip⟩) hE
    exact hdone (name, sha) (Dict.mem_entries.mpr hget) List.not_mem_nil

end Verifying

/-! ## The history -/

/-- A write of the history changes nothing else. -/
def Write.ofHistory : Write → Prop
  | .addVersion _ | .dropVersion _ => True
  | _ => False

/-- The two worlds differ at most in their histories. -/
structure SameButHistory (s s' : World) : Prop where
  host : s'.host = s.host
  releases : s'.releases = s.releases
  transaction : s'.transaction = s.transaction
  clock : s'.clock = s.clock
  begun : s'.begun = s.begun
  edited : s'.edited = s.edited
  confirmed : s'.confirmed = s.confirmed

theorem SameButHistory.refl (s : World) : SameButHistory s s := ⟨rfl, rfl, rfl, rfl, rfl, rfl, rfl⟩

theorem SameButHistory.write {l : Write} (h : SameButHistory s s') (hl : l.ofHistory) :
    SameButHistory s (l.apply s') := by
  cases l <;> first | exact hl.elim | exact ⟨h.host, h.releases, h.transaction, h.clock, h.begun, h.edited, h.confirmed⟩

theorem SameButHistory.inv (h : SameButHistory s s') (hs : Inv d s) : Inv d s' :=
  hs.congr h.transaction h.begun h.host h.releases h.edited

theorem guarded_history {l : Write} (h : SameButHistory s s') (hs : Inv d s) (hl : l.ofHistory)
    (hop : op.confirms = true) (hrecords : ∀ v, l = .addVersion v → v.transactionId = "") :
    Guarded d late op s' l (l.apply s') where
  applied := rfl
  inv := (h.write hl).inv hs
  owned owner ho := by cases l <;> first | exact hl.elim | cases ho
  begins t req hb := by cases hb; exact hl.elim
  confirms t hp := by cases hp; exact hl.elim
  foreign ho := by cases l <;> first | exact hl.elim | cases ho
  records v hv := ⟨hop, hrecords v hv⟩
  drops _ _ := hop
  settled _ t hp := by cases hp; exact hl.elim

section Programs

variable (hI : Closed I)

include hI

theorem wp_readCurrentConfigSources {E : Exc → World → Prop} {G : World → Write → World → Prop}
    {Q : List (SourceName × Bytes) → World → Prop}
    (hQ : ∀ files, (files.map (·.1)).Sublist sourceNames → (ReadsDone I → files = s.host.managed) → Q files s)
    (hE : ¬ ReadsDone I → E .osError s) : WP I G Daemon.readCurrentConfigSources Q E s := by
  refine WP.bind (wp_readHost hI ?_ hE)
  refine (WP.foldlM (J := fun rest files s' => s' = s ∧ (files.map (·.1) ++ rest).Sublist sourceNames ∧
    (ReadsDone I → files ++ rest.filterMap (fun name => (s.host.sources name).map (name, ·)) = s.host.managed))
    ⟨rfl, List.Sublist.refl _, fun _ => rfl⟩ ?_).mono ?_ fun _ _ he => he
  · rintro name rest files s' _ ⟨rfl, hnames, hall⟩
    have hskipped : (files.map (·.1) ++ rest).Sublist sourceNames :=
      ((List.sublist_cons_self name rest).append_left _).trans hnames
    apply WP.bind
    apply wp_attempt
    refine wp_readHost hI (WP.pure ?_) fun hnot => WP.pure ⟨rfl, hskipped, fun hreads => absurd hreads hnot⟩
    refine ⟨rfl, ?_, fun hreads => ?_⟩
    · cases s'.host.sources name with
      | none => simpa using hskipped
      | some content => simpa using hnames
    · rw [← hall hreads]
      cases hcontent : s'.host.sources name <;> simp [hcontent]
  · rintro files s' ⟨rfl, hnames, hall⟩
    exact hQ files (by simpa using hnames) (by simpa using hall)

theorem wp_recordConfigVersion {E : Exc → World → Prop} (hop : op.confirms = true) (h : Inv d s) :
    WP I (Guarded d late op) (d.recordConfigVersion t) (fun _ s' => SameButHistory s s') E s := by
  refine WP.bind (wp_attempt ?_)
  refine WP.bind (wp_readCurrentConfigSources hI (fun files _ _ => ?_) fun _ => WP.pure (.refl s))
  refine WP.ite (fun _ => WP.pure (WP.pure (.refl s))) fun _ => ?_
  refine WP.bind (WP.get ?_)
  refine WP.ite (fun _ => WP.pure (WP.pure (.refl s))) fun _ => ?_
  apply WP.bind
  apply WP.ask hI.time
  intro i _
  refine WP.bind (wp_require (fun _ => ?_) fun _ => WP.pure (.refl s))
  have hadded : ∀ v, SameButHistory s ((Write.addVersion v).apply s) := fun v => (SameButHistory.refl s).write trivial
  refine WP.bind (wp_replace hI (guarded_history (.refl s) h trivial hop fun v hv => ?_) ?_ (WP.pure (.refl s))
    (WP.pure (hadded _)))
  · cases hv
    rfl
  refine WP.bind (WP.get ?_)
  refine WP.bind ((WP.forM_inv (J := SameButHistory s) (hadded _) ?_).mono
    (fun _ _ hs => WP.pure (WP.pure hs)) fun _ _ he => he)
  intro stale _ s' hs'
  refine WP.bind (wp_succeeds ?_)
  have hdropped : SameButHistory s ((Write.dropVersion stale.id).apply s') := hs'.write trivial
  exact wp_replace hI (guarded_history hs' h trivial hop fun v hv => by cases hv) (WP.pure hdropped) (WP.pure hs')
    (WP.pure hdropped)

/-! ## Settling -/

theorem wp_matchingTransaction {id : String} {Q : Transaction → World → Prop} {E : Exc → World → Prop}
    {G : World → Write → World → Prop} (hQ : ∀ t, s.transaction = some t → id ≠ "" → t.id = id → Q t s) (hE : ∀ e, E e s) :
    WP I G (Daemon.matchingTransaction id) Q E s := by
  refine WP.bind (wp_loadConfigTransaction hI ?_ fun _ => hE _)
  cases ht : s.transaction with
  | none => exact WP.throw (hE _)
  | some t =>
    refine WP.bind (wp_require (fun hid => ?_) fun _ => hE _)
    exact WP.pure (hQ t ht hid.2.1 hid.2.2)

theorem wp_commit {id sha256 : String} (h : Inv d s) (ht : s.transaction = some t) (hne : id ≠ "") (hid : t.id = id)
    (hsha : t.candidateSha256 = sha256) (hpending : t.state = .pendingConfirmation) (hclock : s.clock < t.deadline)
    (hv : Verified d s t) :
    WP I (Guarded d late (.confirm id sha256)) (d.commit t) (fun _ s' => Inv d s')
      (fun _ s' => Inv d s') s := by
  refine WP.bind ((wp_recordConfigVersion hI rfl h).mono ?_ fun _ _ he => he)
  intro version s₁ hsame
  dsimp only
  set t₁ : Transaction := { t with state := .confirmed, historyVersion := version }.dropMaterial with ht₁
  have hinv₁ : Inv d s₁ := hsame.inv h
  have hdisk : s₁.transaction = some t := hsame.transaction.trans ht
  obtain ⟨req, cap, hb, hr, hp⟩ := hinv₁ t hdisk
  unfold Promises at hp
  rw [hpending] at hp
  obtain ⟨hready, hcandidate⟩ := hp
  have hinv₂ : Inv d ((Write.persist t₁).apply s₁) := by
    refine inv_persist hb ⟨hr.config, hr.sources⟩ fun he => ⟨?_, hready.untouched he⟩
    obtain ⟨hconfig, hsources, hallowlist, hgeoip⟩ := hcandidate he
    exact ⟨hconfig, hsources, hallowlist, hgeoip⟩
  have happroves : Approves d (.confirm id sha256) s₁ t₁ := by
    refine ⟨id, sha256, rfl, hne, hid, hsha, t, hdisk, hid, hsha, hpending, hsame.clock ▸ hclock, ?_⟩
    refine ⟨?_, hv.named, ?_, ?_, ?_⟩
    · rw [hsame.host]
      exact hv.config
    · rw [hsame.host]
      exact hv.sources
    · rw [hsame.host]
      exact hv.allowlist
    · rw [hsame.host, hsame.releases]
      exact hv.geoip
  refine WP.bind (wp_persist hI ?_ (WP.pure hinv₂) (fun _ => hinv₁) fun _ _ => hinv₂)
  refine guarded_persist hinv₂ (fun _ => happroves) fun _ old ho => ?_
  obtain rfl : t = old := Option.some.inj (hdisk.symm.trans ho)
  exact ⟨by rw [hpending]; rfl, rfl⟩

variable (hlate : ¬ Prompt I → late)

include hlate

theorem wp_rollBack_loaded {reason : String} {α : Type} {f : Transaction → M α} {Q : α → World → Prop}
    {E : Exc → World → Prop} (h : Inv d s) (ht : s.transaction = some t) (ha : t.state.active = true)
    (hf : ∀ t' s', Inv d s' → s'.transaction = some t' →
      t'.state = .rolledBack ∨ t'.state = .rollbackFailed → WP I (Guarded d late op) (f t') Q E s')
    (hE : ∀ e s', Inv d s' → ¬ PersistsDone I → E e s') :
    WP I (Guarded d late op) (d.rollBack t reason >>= f) Q E s := by
  obtain ⟨req, cap, hhand⟩ : ∃ req cap, InHand d late t req cap s := h.inHand ht ha
  refine WP.bind ((wp_rollBack hI hlate hhand).mono ?_ fun e s' he => hE e s' he.1 he.2)
  rintro t' s' ⟨hinv, hdisk, hstate⟩
  exact hf t' s' hinv hdisk hstate

theorem wp_confirm {id sha256 : String} (h : Inv d s) :
    WP I (Guarded d late (.confirm id sha256)) (d.confirmConfigTransaction id sha256)
      (fun _ s' => Inv d s') (fun _ s' => Inv d s') s := by
  apply WP.bind
  apply WP.ask hI.lock
  intro i _
  refine WP.bind (wp_matchingTransaction hI (fun t ht hne hid => ?_) fun _ => h)
  refine WP.bind (wp_require (fun hsha => ?_) fun _ => h)
  refine WP.ite (fun _ => WP.pure h) fun _ => ?_
  refine WP.bind (wp_require (fun hpending => ?_) fun _ => h)
  have hactive : t.state.active = true := by
    rw [hpending]
    rfl
  refine WP.bind (wp_readClock hI (fun now => guarded_clock h) fun now => ?_)
  have hloaded : ((Write.clock now).apply s).transaction = some t := ht
  refine WP.ite (fun _ => ?_) fun hin => ?_
  · exact wp_rollBack_loaded hI hlate h.clock hloaded hactive (fun _ _ hs' _ _ => WP.throw hs') fun _ _ hs' _ => hs'
  · have hclock : ((Write.clock now).apply s).clock < t.deadline := by
      change now < t.deadline
      omega
    refine WP.bind (wp_attempt (wp_verifyLive hI (fun hv => ?_) fun _ => ?_))
    · exact wp_commit hI h.clock hloaded hne hid hsha hpending hclock hv
    · exact wp_rollBack_loaded hI hlate h.clock hloaded hactive (fun _ _ hs' _ _ => WP.throw hs') fun _ _ hs' _ => hs'

theorem wp_rollback {id : String} (h : Inv d s) :
    WP I (Guarded d late op) (d.rollbackConfigTransaction id) (fun _ s' => Inv d s')
      (fun _ s' => Inv d s') s := by
  apply WP.bind
  apply WP.ask hI.lock
  intro i _
  refine WP.bind (wp_matchingTransaction hI (fun t ht _ _ => ?_) fun _ => h)
  refine WP.ite (fun _ => WP.pure h) fun hopen => ?_
  refine WP.bind (wp_require (fun hconfirmed => ?_) fun _ => h)
  have hactive : t.state.active = true := by
    have hrolled : t.state ≠ .rolledBack := fun hs => hopen (Or.inr hs)
    cases hs : t.state <;> simp_all [TransactionState.active]
  obtain ⟨req, cap, hhand⟩ : ∃ req cap, InHand d late t req cap s := h.inHand ht hactive
  exact (wp_rollBack hI hlate hhand).mono (fun _ _ hs => hs.1) fun _ _ hs => hs.1

theorem wp_status (h : Inv d s) :
    WP I (Guarded d late op) d.configTransactionStatus (fun _ s' => Inv d s') (fun _ s' => Inv d s') s := by
  apply WP.bind
  apply WP.ask hI.lock
  intro i _
  refine WP.bind (wp_loadConfigTransaction hI ?_ fun _ => h)
  cases ht : s.transaction with
  | none => exact WP.pure h
  | some t =>
    refine WP.bind (wp_readClock hI (fun now => guarded_clock h) fun now => ?_)
    have hloaded : ((Write.clock now).apply s).transaction = some t := ht
    refine WP.ite (fun hexpired => ?_) fun _ => WP.pure h.clock
    exact wp_rollBack_loaded hI hlate h.clock hloaded (expired_active hexpired.2)
      (fun _ _ hs' _ _ => WP.pure hs') fun _ _ hs' _ => hs'

theorem wp_watchdog {id : String} (h : Inv d s) :
    WP I (Guarded d late op) (d.configTransactionWatchdog id) (fun _ s' => Inv d s')
      (fun _ s' => Inv d s') s := by
  refine WP.bind (wp_attempt ?_)
  refine WP.bind (wp_loadConfigTransaction hI ?_ fun _ => WP.pure h)
  refine WP.bind (wp_readClock hI (fun now => guarded_clock h) fun now => ?_)
  cases ht : s.transaction with
  | none => exact WP.pure (WP.pure h.clock)
  | some t =>
    have hloaded : ((Write.clock now).apply s).transaction = some t := ht
    refine WP.when (fun hdue => ?_) fun _ => WP.pure h.clock
    have hactive : t.state.active = true := by
      rw [hdue.2.1]
      rfl
    exact wp_rollBack_loaded hI hlate h.clock hloaded hactive (fun _ _ hs' _ _ => WP.pure (WP.pure hs'))
      fun _ _ hs' _ => WP.pure hs'

/-- After a recovery that could read and persist, no transaction is half-way. -/
theorem wp_recover (h : Inv d s) :
    WP I (Guarded d late op) d.recoverConfigTransaction
      (fun _ s' => Inv d s' ∧ ∀ t, s'.transaction = some t → t.state ≠ .prepared ∧ t.state ≠ .rollingBack)
      (fun _ s' => Inv d s' ∧ ¬ (PersistsDone I ∧ ReadsDone I)) s := by
  have hsettled : ∀ t' s', Inv d s' → s'.transaction = some t' →
      t'.state = .rolledBack ∨ t'.state = .rollbackFailed →
      Inv d s' ∧ ∀ t, s'.transaction = some t → t.state ≠ .prepared ∧ t.state ≠ .rollingBack := by
    intro t' s' hs' hdisk hstate
    refine ⟨hs', fun t ht => ?_⟩
    obtain rfl : t' = t := Option.some.inj (hdisk.symm.trans ht)
    rcases hstate with hstate | hstate <;> simp [hstate]
  refine WP.bind (wp_loadConfigTransaction hI ?_ fun hread => ⟨h, fun hall => hread hall.2⟩)
  cases ht : s.transaction with
  | none => exact WP.pure ⟨h, fun t hsome => by simp [ht] at hsome⟩
  | some t =>
    have hkeep : t.state ≠ .prepared → t.state ≠ .rollingBack →
        ∀ t', s.transaction = some t' → t'.state ≠ .prepared ∧ t'.state ≠ .rollingBack := by
      intro h₁ h₂ t' ht'
      obtain rfl : t = t' := Option.some.inj (ht.symm.trans ht')
      exact ⟨h₁, h₂⟩
    have hroll : ∀ reason, t.state.active = true → WP I (Guarded d late op)
        (do let _ ← d.rollBack t reason)
        (fun _ s' => Inv d s' ∧ ∀ t, s'.transaction = some t → t.state ≠ .prepared ∧ t.state ≠ .rollingBack)
        (fun _ s' => Inv d s' ∧ ¬ (PersistsDone I ∧ ReadsDone I)) s := fun reason hactive =>
      wp_rollBack_loaded hI hlate h ht hactive (fun t' s' hs' hd hst => WP.pure (hsettled t' s' hs' hd hst))
        fun _ s' hs' hp => ⟨hs', fun hall => hp hall.1⟩
    dsimp only
    cases hstate : t.state with
    | prepared => exact hroll _ (by rw [hstate]; rfl)
    | rollingBack => exact hroll _ (by rw [hstate]; rfl)
    | rollbackFailed => exact hroll _ (by rw [hstate]; rfl)
    | pendingConfirmation =>
      have hactive : t.state.active = true := by
        rw [hstate]
        rfl
      refine WP.bind (wp_readClock hI (fun now => guarded_clock h) fun now => ?_)
      have hloaded : ((Write.clock now).apply s).transaction = some t := ht
      refine WP.when (fun _ => ?_) fun _ => ⟨h.clock, hkeep (by simp [hstate]) (by simp [hstate])⟩
      exact wp_rollBack_loaded hI hlate h.clock hloaded hactive
        (fun t' s' hs' hd hst => WP.pure (hsettled t' s' hs' hd hst)) fun _ s' hs' hp => ⟨hs', fun hall => hp hall.1⟩
    | rolledBack => exact WP.pure ⟨h, hkeep (by simp [hstate]) (by simp [hstate])⟩
    | confirmed => exact WP.pure ⟨h, hkeep (by simp [hstate]) (by simp [hstate])⟩

end Programs

/-! ## Writes outside a transaction -/

/-- Nobody's promise is about a host that somebody else wrote. -/
theorem inv_edited {host : Host} {releases : String → Option Release} (h : Inv d s) :
    Inv d { s with host := host, releases := releases, edited := true } := by
  intro t ht
  obtain ⟨req, cap, hb, hr, hp⟩ := h t ht
  refine ⟨req, cap, hb, hr, ?_⟩
  have hready : Ready d s t req cap →
      Ready d { s with host := host, releases := releases, edited := true } t req cap :=
    fun hready => ⟨hready.holds, fun he => by cases he⟩
  unfold Promises at hp ⊢
  split at hp
  · exact hready hp
  · exact ⟨hready hp.1, fun he => by cases he⟩
  · exact hp.imp_left hready
  · exact hp.imp_left hready
  · exact fun he => by cases he
  · exact fun he => by cases he

theorem Inv.foreignConfig {raw : Bytes} (h : Inv d s) : Inv d ((Write.config raw none).apply s) := by
  have hsame : (Write.config raw none).apply s =
      { s with host := { s.host with config := raw }, releases := s.releases, edited := true } := by
    simp [Write.apply]
  rw [hsame]
  exact inv_edited h

theorem guarded_foreignConfig {raw : Bytes} (hop : op.foreign = true) (h : Inv d s)
    (hfree : ∀ t, s.transaction = some t → t.state.active = false) :
    Guarded d late op s (.config raw none) ((Write.config raw none).apply s) where
  applied := rfl
  inv := h.foreignConfig
  owned owner _ t ht ha := by
    rw [hfree t ht] at ha
    cases ha
  begins t req hb := by cases hb
  confirms t hp := by cases hp
  foreign _ := hop
  records v hv := by cases hv
  drops id hd := by cases hd
  settled _ t hp := by cases hp

section Programs

variable (hI : Closed I) (hlate : ¬ Prompt I → late)

include hI

theorem wp_restoreForeign {previous : Bytes} {E : Exc → World → Prop} (hop : op.foreign = true) (h : Inv d s)
    (hfree : ∀ t, s.transaction = some t → t.state.active = false) :
    WP I (Guarded d late op) (d.restoreGuardedConfig previous none) (fun _ s' => Inv d s') E s := by
  refine WP.bind (wp_attempt (wp_haproxyWriteConfig hI (guarded_foreignConfig hop h hfree) ?_ fun e => ⟨?_, ?_⟩))
  · apply WP.bind
    apply WP.ask hI.reload
    intro i _
    refine WP.ite (fun _ => ?_) fun _ => WP.pure h.foreignConfig
    exact WP.ask hI.probe fun i _ => h.foreignConfig
  · exact WP.pure h
  · exact WP.pure h.foreignConfig

include hlate

theorem wp_writeConfig {raw : Bytes} (hop : op.foreign = true) (h : Inv d s) :
    WP I (Guarded d late op) (d.haproxyWriteConfigSerialized raw) (fun _ s' => Inv d s')
      (fun _ s' => Inv d s') s := by
  apply WP.bind
  apply WP.ask hI.lock
  intro i _
  refine WP.bind (wp_require (fun _ => ?_) fun _ => h)
  refine WP.bind ((wp_ensureNoActive hI hlate h).mono ?_ fun _ _ he => he)
  rintro _ s₁ ⟨h₁, hfree⟩
  exact wp_haproxyWriteConfig hI (guarded_foreignConfig hop h₁ hfree) h₁.foreignConfig fun _ => ⟨h₁, h₁.foreignConfig⟩

theorem wp_applyConfig {candidate : Bytes} (hop : op.foreign = true) (h : Inv d s) :
    WP I (Guarded d late op) (d.haproxyApplyConfigGuarded candidate) (fun _ s' => Inv d s')
      (fun _ s' => Inv d s') s := by
  apply WP.bind
  apply WP.ask hI.lock
  intro i _
  refine WP.bind (wp_require (fun _ => ?_) fun _ => h)
  refine WP.bind ((wp_ensureNoActive hI hlate h).mono ?_ fun _ _ he => he)
  rintro _ s₁ ⟨h₁, hfree⟩
  refine WP.bind (wp_require (fun _ => ?_) fun _ => h₁)
  refine WP.bind (wp_readHost hI ?_ fun _ => h₁)
  refine WP.bind (wp_require (fun _ => ?_) fun _ => h₁)
  refine WP.bind (wp_require (fun _ => ?_) fun _ => h₁)
  -- a restore follows wherever the candidate is not kept
  have hrestore : ∀ s', Inv d s' → (∀ t, s'.transaction = some t → t.state.active = false) →
      WP I (Guarded d late op)
        (do
          let _ ← d.restoreGuardedConfig s₁.host.config none
          pure false)
        (fun _ s' => Inv d s') (fun _ s' => Inv d s') s' := fun s' hs' hfree' =>
    WP.bind ((wp_restoreForeign hI hop hs' hfree').mono (fun _ _ hs => WP.pure hs) fun _ _ he => he)
  have hwritten : Inv d ((Write.config candidate none).apply s₁) := h₁.foreignConfig
  have hfree' : ∀ t, ((Write.config candidate none).apply s₁).transaction = some t → t.state.active = false := hfree
  refine WP.bind (wp_attempt (WP.bind (wp_haproxyWriteConfig hI (guarded_foreignConfig hop h₁ hfree) ?_ fun _ =>
    ⟨hrestore s₁ h₁ hfree, hrestore _ hwritten hfree'⟩)))
  apply WP.bind
  apply WP.ask hI.reload
  intro i _
  refine WP.ite (fun _ => ?_) fun _ => WP.pure (hrestore _ hwritten hfree')
  refine WP.ask hI.probe fun i _ => ?_
  cases i.nextProbe.1 with
  | true => exact WP.pure hwritten
  | false => exact hrestore _ hwritten hfree'

/-- Every operation keeps the invariant at every write. -/
theorem wp_program (op : Op) (h : Inv d s) :
    WP I (Guarded d late op) (op.program d) (fun _ s' => Inv d s') (fun _ s' => Inv d s') s := by
  cases op with
  | begin request => exact WP.bind ((wp_begin hI hlate h).mono (fun _ _ hs => WP.pure hs) fun _ _ hs => hs)
  | confirm id sha256 => exact WP.bind ((wp_confirm hI hlate h).mono (fun _ _ hs => WP.pure hs) fun _ _ hs => hs)
  | rollback id => exact WP.bind ((wp_rollback hI hlate h).mono (fun _ _ hs => WP.pure hs) fun _ _ hs => hs)
  | status => exact WP.bind ((wp_status hI hlate h).mono (fun _ _ hs => WP.pure hs) fun _ _ hs => hs)
  | watchdog id => exact wp_watchdog hI hlate h
  | recover => exact (wp_recover hI hlate h).mono (fun _ _ hs => hs.1) fun _ _ hs => hs.1
  | writeConfig raw => exact wp_writeConfig hI hlate rfl h
  | applyConfig candidate =>
    exact WP.bind ((wp_applyConfig hI hlate rfl h).mono (fun _ _ hs => WP.pure hs) fun _ _ hs => hs)

end Programs

end EasyHaProxy.Controld
