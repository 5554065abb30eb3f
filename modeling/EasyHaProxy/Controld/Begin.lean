import EasyHaProxy.Controld.Rollback

/-! What was captured is persisted before anything is written; from then on every exit is a pending
candidate that is completely in place, or a rollback. -/
namespace EasyHaProxy.Controld

variable {d : Daemon} {late : Prop} {op : Op} {I : Script → Prop} {s s' : World}
  {t : Transaction} {req : BeginRequest} {cap : Host}

/-! ## Moves that leave the transaction alone -/

theorem Promises.congr (h : Promises d s t req cap) (hhost : s'.host = s.host)
    (hreleases : s'.releases = s.releases) (hedited : s'.edited = s.edited) : Promises d s' t req cap := by
  have hready : Ready d s t req cap → Ready d s' t req cap :=
    fun hr => ⟨hr.holds, by rw [hedited, hhost]; exact hr.untouched⟩
  have hcandidate : Candidate d s req → Candidate d s' req := by
    rintro ⟨hconfig, hsources, hallowlist, hgeoip⟩
    exact ⟨by rw [hhost]; exact hconfig, by rw [hhost]; exact hsources, by rw [hhost]; exact hallowlist,
      by rw [hhost, hreleases]; exact hgeoip⟩
  unfold Promises at h ⊢
  split at h
  · exact hready h
  · exact ⟨hready h.1, fun he => hcandidate (h.2 (hedited ▸ he))⟩
  · exact h.imp_left hready
  · exact h.imp_left hready
  · rw [hedited, hhost]
    exact h
  · rw [hedited, hhost]
    exact fun he => ⟨hcandidate (h he).1, (h he).2⟩

theorem Inv.congr (h : Inv d s) (htransaction : s'.transaction = s.transaction) (hbegun : s'.begun = s.begun)
    (hhost : s'.host = s.host) (hreleases : s'.releases = s.releases) (hedited : s'.edited = s.edited) :
    Inv d s' := by
  intro t ht
  obtain ⟨req, cap, hb, hr, hp⟩ := h t (htransaction ▸ ht)
  exact ⟨req, cap, hbegun.trans hb, hr, hp.congr hhost hreleases hedited⟩

theorem Inv.clock {now : Nat} (h : Inv d s) : Inv d ((Write.clock now).apply s) := h.congr rfl rfl rfl rfl rfl

theorem guarded_clock {now : Nat} (h : Inv d s) :
    Guarded d late op s (.clock now) ((Write.clock now).apply s) where
  applied := rfl
  inv := h.clock
  owned owner ho := by cases ho
  begins t req hb := by cases hb
  confirms t hp := by cases hp
  foreign ho := by cases ho
  records v hv := by cases hv
  drops id hd := by cases hd
  settled _ t hp := by cases hp

/-- The transaction is persisted for the first time, over a settled one or none. -/
theorem guarded_begin (hinv : Inv d ((Write.begin t req).apply s)) (hprepared : t.state = .prepared)
    (hfree : ∀ old, s.transaction = some old → old.state.active = false) :
    Guarded d late op s (.begin t req) ((Write.begin t req).apply s) where
  applied := rfl
  inv := hinv
  owned owner ho := by cases ho
  begins t' req' hb := by
    cases hb
    exact ⟨hprepared, hfree⟩
  confirms t' hp := by cases hp
  foreign ho := by cases ho
  records v hv := by cases hv
  drops id hd := by cases hd
  settled _ t' hp := by cases hp

theorem Inv.inHand (h : Inv d s) (ht : s.transaction = some t) (ha : t.state.active = true) :
    ∃ req cap, InHand d late t req cap s := by
  obtain ⟨req, cap, hb, hr, hp⟩ := h t ht
  refine ⟨req, cap, h, hb, hr, ?_, fun _ old ho => ?_⟩
  · unfold Promises at hp
    cases hs : t.state <;> rw [hs] at hp ha
    · exact Or.inl hp
    · exact Or.inl hp.1
    · exact hp
    · exact hp
    · cases ha
    · cases ha
  · obtain rfl : t = old := Option.some.inj (ht.symm.trans ho)
    exact ⟨ha, rfl⟩

theorem expired_active {now : Nat} (h : Daemon.expired t now = true) : t.state.active = true := by
  simp only [Daemon.expired, Bool.and_eq_true, decide_eq_true_eq] at h
  rw [h.1.1]
  rfl

section Programs

variable (hI : Closed I) (hlate : ¬ Prompt I → late)

include hI hlate

theorem wp_rollBack {reason : String} (h : InHand d late t req cap s) :
    WP I (Guarded d late op) (d.rollBack t reason)
      (fun t' s' => Inv d s' ∧ s'.transaction = some t' ∧ (t'.state = .rolledBack ∨ t'.state = .rollbackFailed))
      (fun _ s' => Inv d s' ∧ ¬ PersistsDone I) s := by
  refine WP.bind ((wp_rollbackConfigTransactionLocked hI h hlate).mono ?_ fun _ _ he => he)
  rintro ⟨t', raised⟩ s' hr
  cases raised with
  | error e => exact WP.throw ⟨hr.inv, (hr.raised e rfl).1⟩
  | ok _ => exact WP.pure ⟨hr.inv, (hr.settled rfl).1, (hr.settled rfl).2⟩

/-- Whoever writes next finds no active transaction. -/
theorem wp_ensureNoActive {reason : String} (h : Inv d s) :
    WP I (Guarded d late op) (d.ensureNoActiveConfigTransactionLocked reason)
      (fun _ s' => Inv d s' ∧ ∀ t, s'.transaction = some t → t.state.active = false)
      (fun _ s' => Inv d s') s := by
  have hfinal : ∀ s', Inv d s' → WP I (Guarded d late op)
      (require (∀ t ∈ s'.transaction, t.state.active = false)
        (.runtimeError "another HAProxy config transaction is still active"))
      (fun _ s' => Inv d s' ∧ ∀ t, s'.transaction = some t → t.state.active = false)
      (fun _ s' => Inv d s') s' := fun s' hs' => wp_require (fun hn => ⟨hs', hn⟩) fun _ => hs'
  refine WP.bind (wp_loadConfigTransaction hI ?_ fun _ => h)
  refine WP.bind (wp_readClock hI (fun now => guarded_clock h) fun now => ?_)
  have hclock : Inv d ((Write.clock now).apply s) := h.clock
  cases ht : s.transaction with
  | none =>
    have hnone : ((Write.clock now).apply s).transaction = none := ht
    refine WP.bind (WP.pure ?_)
    have := hfinal _ hclock
    rwa [hnone] at this
  | some t =>
    have hsome : ((Write.clock now).apply s).transaction = some t := ht
    refine WP.ite (fun hexpired => ?_) fun _ => ?_
    · obtain ⟨req, cap, hhand⟩ : ∃ req cap, InHand d late t req cap _ :=
        hclock.inHand hsome (expired_active hexpired)
      refine WP.bind ((wp_rollBack hI hlate hhand).mono ?_ fun _ _ he => he.1)
      rintro t' s' ⟨hinv, -⟩
      exact WP.bind (wp_loadConfigTransaction hI (hfinal s' hinv) fun _ => hinv)
    · have := hfinal _ hclock
      rw [hsome] at this
      exact WP.bind (WP.pure this)

end Programs

/-! ## Applying the candidate -/

/-- The candidate is being applied: its transaction is on disk as prepared, and the one in
hand differs from it at most by the GeoIP fingerprint. -/
structure Applying (d : Daemon) (t : Transaction) (req : BeginRequest) (cap : Host) (s : World) : Prop where
  disk : ∃ t₀, s.transaction = some t₀ ∧ t₀.state = .prepared ∧ t₀.id = t.id ∧ Recorded d t₀ req ∧
    Holds d t₀ req cap
  begun : s.begun = some (req, cap)
  recorded : Recorded d t req
  holds : Holds d t req cap
  state : t.state = .prepared
  edited : s.edited = false
  untouched : Untouched s.host req cap
  sources : ∀ name content, req.candidate.get? name = some content → s.host.sources name = some content

theorem Applying.ready (h : Applying d t req cap s) : Ready d s t req cap := ⟨h.holds, fun _ => h.untouched⟩

theorem Applying.inv (h : Applying d t req cap s) : Inv d s := by
  obtain ⟨t₀, hdisk, hstate, -, hrecorded, hholds⟩ := h.disk
  intro t' ht'
  obtain rfl : t₀ = t' := Option.some.inj (hdisk.symm.trans ht')
  refine ⟨req, cap, h.begun, hrecorded, ?_⟩
  unfold Promises
  rw [hstate]
  exact ⟨hholds, fun _ => h.untouched⟩

theorem Applying.active (h : Applying d t req cap s) :
    ∀ old, s.transaction = some old → old.state.active = true ∧ old.id = t.id := by
  obtain ⟨t₀, hdisk, hstate, hid, -⟩ := h.disk
  intro old ho
  obtain rfl : t₀ = old := Option.some.inj (hdisk.symm.trans ho)
  exact ⟨by rw [hstate]; rfl, hid⟩

theorem Applying.inHand (h : Applying d t req cap s) : InHand d late t req cap s :=
  ⟨h.inv, h.begun, h.recorded, Or.inl h.ready, fun _ => h.active⟩

/-- A file is written for the transaction. -/
theorem Applying.guarded {l : Write} (h : Applying d t req cap s) (h' : Applying d t req cap (l.apply s))
    (hl : l.owner = some (some t.id)) : Guarded d late op s l (l.apply s) where
  applied := rfl
  inv := h'.inv
  owned owner ho t' ht' _ := by
    rw [(h.active t' ht').2]
    exact Option.some.inj (ho.symm.trans hl)
  begins t' req' hb := by
    rw [hb] at hl
    cases hl
  confirms t' hp := by
    rw [hp] at hl
    cases hl
  foreign ho := by
    rw [hl] at ho
    cases ho
  records v hv := by
    rw [hv] at hl
    cases hl
  drops id hd := by
    rw [hd] at hl
    cases hl
  settled _ t' hp := by
    rw [hp] at hl
    cases hl

/-- Only a part of the host changed that the request names and that is no source. -/
theorem Applying.host {host : Host} {releases : String → Option Release} (h : Applying d t req cap s)
    (hu : Untouched s.host req cap → Untouched host req cap) (hs : host.sources = s.host.sources) :
    Applying d t req cap { s with host := host, releases := releases } where
  disk := h.disk
  begun := h.begun
  recorded := h.recorded
  holds := h.holds
  state := h.state
  edited := h.edited
  untouched := hu h.untouched
  sources name content hc := by
    change host.sources name = some content
    rw [hs]
    exact h.sources name content hc

theorem Applying.config {raw : Bytes} (h : Applying d t req cap s) :
    Applying d t req cap ((Write.config raw (some t.id)).apply s) := by
  have hsame : (Write.config raw (some t.id)).apply s = { s with host := { s.host with config := raw } } := by
    simp [Write.apply]
  rw [hsame]
  exact h.host (fun hu => ⟨hu.sources, hu.allowlist, hu.geoip⟩) rfl

theorem Applying.allowlist {raw : Option Bytes} {owner : Option String} (h : Applying d t req cap s)
    (hn : req.adminAllowlist ≠ none) : Applying d t req cap ((Write.allowlist raw owner).apply s) :=
  h.host (fun hu => ⟨hu.sources, fun hnone => absurd hnone hn, hu.geoip⟩) rfl

theorem Applying.selection {raw : Option Bytes} {owner : Option String} (h : Applying d t req cap s)
    (hn : req.geoipSelection ≠ none) : Applying d t req cap ((Write.selection raw owner).apply s) :=
  h.host (fun hu => ⟨hu.sources, hu.allowlist, fun hnone => absurd hnone hn⟩) rfl

theorem Applying.geoipUpdate {name : String} {built : Release} {owner : Option String}
    (h : Applying d t req cap s) (hn : req.geoipSelection ≠ none) :
    Applying d t req cap ((Write.geoipUpdate name built owner).apply s) :=
  h.host (fun hu => ⟨hu.sources, hu.allowlist, fun hnone => absurd hnone hn⟩) rfl

/-- The live GeoIP state is the one asked for. -/
def GeoipLive (d : Daemon) (req : BeginRequest) (s : World) : Prop :=
  ∀ selection, req.geoipSelection = some selection →
    s.host.selection = some (d.selectionRaw selection) ∧
      ∃ release, s.releases s.host.release = some release ∧ release.serves selection

section Applying

variable (hI : Closed I)

include hI

theorem wp_geoipRuntimeFingerprint {expected : Selection} {Q : Fingerprint → World → Prop}
    {E : Exc → World → Prop} {G : World → Write → World → Prop}
    (hQ : ∀ f release, f.selectionSha256 = d.sha256 (s.host.selection.getD []) → f.release = s.host.release →
      s.releases s.host.release = some release → release.serves expected →
      f.databaseSha256 = release.databaseSha256 → f.allowedSha256 = release.allowedSha256 → Q f s)
    (hE : ∀ e, E e s) : WP I G (d.geoipRuntimeFingerprint expected) Q E s := by
  refine WP.bind (wp_geoipSelection hI (fun selection _ => ?_) hE)
  refine WP.bind (wp_require (fun hexpected => ?_) fun _ => hE _)
  refine WP.bind (wp_readHost hI (WP.bind (WP.get ?_)) fun _ => hE _)
  dsimp only
  split
  · exact WP.throw (hE _)
  · rename_i release hrelease
    refine WP.bind (wp_require (fun hserves => ?_) fun _ => hE _)
    refine WP.bind (wp_require (fun _ => ?_) fun _ => hE _)
    split at hrelease
    · cases hrelease
    · exact WP.pure (hQ _ release rfl rfl hrelease hserves rfl rfl)

theorem wp_applyGeoip {E : Exc → World → Prop} (h : Applying d t req cap s) :
    WP I (Guarded d late op) (d.applyGeoip t)
      (fun r s' => Applying d r.1 req cap s' ∧ (r.2 = .ok () → GeoipLive d req s')) E s := by
  unfold Daemon.applyGeoip
  cases hg : t.geoip with
  | none =>
    have hnone : req.geoipSelection = none := h.holds.geoipAsked hg
    exact WP.pure ⟨h, fun _ selection hs => by simp [hnone] at hs⟩
  | some geoip =>
    have hasked : req.geoipSelection = some geoip.candidateSelection := (h.holds.geoip geoip hg).2.2.1
    have hsome : req.geoipSelection ≠ none := by simp [hasked]
    set raw := d.selectionRaw geoip.candidateSelection with hraw
    -- the selection is written, then the updater runs and the result is looked at
    have hfinger : ∀ s', Applying d t req cap s' → s'.host.selection = some raw → raw ≠ [] →
        WP I (Guarded d late op) (d.geoipRuntimeFingerprint geoip.candidateSelection)
          (fun f s' => Applying d t req cap s' ∧ GeoipLive d req s' ∧ raw ≠ [] ∧ f.selectionSha256 = d.sha256 raw)
          (fun _ s' => Applying d t req cap s') s' := by
      intro s' hs' hsel hne
      refine wp_geoipRuntimeFingerprint hI ?_ fun _ => hs'
      intro f release hsha _ hrelease hserves _ _
      refine ⟨hs', fun selection hselection => ?_, hne, ?_⟩
      · obtain rfl : geoip.candidateSelection = selection := Option.some.inj (hasked.symm.trans hselection)
        exact ⟨hsel, release, hrelease, hserves⟩
      · rw [hsha, hsel]
        rfl
    have hprepare : WP I (Guarded d late op) (d.prepareGeoip geoip.candidateSelection (some t.id))
        (fun f s' => Applying d t req cap s' ∧ GeoipLive d req s' ∧ raw ≠ [] ∧ f.selectionSha256 = d.sha256 raw)
        (fun _ s' => Applying d t req cap s') s := by
      have hwritten : Applying d t req cap ((Write.selection (some raw) (some t.id)).apply s) := h.selection hsome
      refine WP.bind (wp_writeGeoipSelectionRaw hI (h.guarded hwritten rfl) (fun hne => ?_) fun _ => ⟨h, hwritten⟩)
      apply WP.bind
      apply WP.ask hI.update
      intro i _
      cases i.nextUpdate.1.release with
      | none =>
        refine WP.bind (wp_require (fun _ => ?_) fun _ => hwritten)
        exact hfinger _ hwritten rfl hne
      | some built =>
        have hbuilt : Applying d t req cap (Write.apply _ (.geoipUpdate built.1 built.2 (some t.id))) :=
          hwritten.geoipUpdate hsome
        refine WP.bind (wp_perform (hwritten.guarded hbuilt rfl) ?_)
        refine WP.bind (wp_require (fun _ => ?_) fun _ => hbuilt)
        exact hfinger _ hbuilt rfl hne
    refine WP.bind (wp_attempt (hprepare.mono ?_ ?_))
    · rintro f s₁ ⟨h₁, hlive, hne, hsha⟩
      dsimp only
      set t₁ : Transaction := { t with geoip := some { geoip with candidateFingerprint := some f } } with ht₁
      have hholds : Holds d t₁ req cap := by
        refine ⟨h₁.holds.config, h₁.holds.sources, h₁.holds.named, h₁.holds.allowlist, h₁.holds.allowlistAsked,
          fun g hg₁ => ?_, fun hnone => by cases hnone⟩
        cases hg₁
        obtain ⟨hselection, hrelease, -⟩ := h₁.holds.geoip geoip hg
        refine ⟨hselection, hrelease, hasked, fun f' hf' => ?_⟩
        cases hf'
        exact ⟨hne, hsha⟩
      have hrec : Recorded d t₁ req := ⟨h₁.recorded.config, h₁.recorded.sources⟩
      have hfailed : Applying d t₁ req cap s₁ :=
        ⟨h₁.disk, h₁.begun, hrec, hholds, h₁.state, h₁.edited, h₁.untouched, h₁.sources⟩
      have hdone : Applying d t₁ req cap ((Write.persist t₁).apply s₁) :=
        ⟨⟨t₁, rfl, h₁.state, rfl, hrec, hholds⟩, h₁.begun, hrec, hholds, h₁.state, h₁.edited, h₁.untouched,
          h₁.sources⟩
      refine WP.bind (wp_attempt (wp_persist hI ?_ ?_ ?_ ?_))
      · refine guarded_persist hdone.inv (fun hc => ?_) fun _ => h₁.active
        rw [ht₁, h₁.state] at hc
        cases hc
      · exact WP.pure ⟨hdone, fun _ => hlive⟩
      · exact fun _ => WP.pure ⟨hfailed, fun he => by cases he⟩
      · exact fun _ _ => WP.pure ⟨hdone, fun he => by cases he⟩
    · intro e s₁ h₁
      exact WP.pure ⟨h₁, fun he => by cases he⟩

/-- What is still missing of the candidate is written, and either all of it is in place or
it has to go. -/
theorem wp_applyFiles {allowlist : Option Bytes} (h : Applying d t req cap s) (hlive : GeoipLive d req s)
    (hlist : allowlist = req.adminAllowlist.bind d.allowlistRaw)
    (hasked : ∀ entries, req.adminAllowlist = some entries → d.allowlistRaw entries ≠ none) :
    WP I (Guarded d late op) (d.applyFiles t allowlist req.config)
      (fun failure s' => Applying d t req cap s' ∧ (failure = none → Candidate d s' req))
      (fun _ s' => Applying d t req cap s') s := by
  have hconfig : ∀ s', Applying d t req cap s' → GeoipLive d req s' →
      (∀ entries, req.adminAllowlist = some entries → s'.host.allowlist = d.allowlistRaw entries) →
      WP I (Guarded d late op)
        (do
          d.haproxyWriteConfig req.config (some t.id)
          if ← Daemon.cmdReload then
            if ← Daemon.runControlPlaneChecks then pure none else pure (some "candidate health check failed")
          else pure (some "candidate reload failed"))
        (fun failure s' => Applying d t req cap s' ∧ (failure = none → Candidate d s' req))
        (fun _ s' => Applying d t req cap s') s' := by
    intro s' hs' hl ha
    have hwritten : Applying d t req cap ((Write.config req.config (some t.id)).apply s') := hs'.config
    have hcandidate : Candidate d ((Write.config req.config (some t.id)).apply s') req :=
      ⟨rfl, hwritten.sources, ha, hl⟩
    refine WP.bind (wp_haproxyWriteConfig hI (hs'.guarded hwritten rfl) ?_ fun _ => ⟨hs', hwritten⟩)
    apply WP.bind
    apply WP.ask hI.reload
    intro i _
    refine WP.ite (fun _ => ?_) fun _ => WP.pure ⟨hwritten, fun hf => by cases hf⟩
    apply WP.bind
    apply WP.ask hI.probe
    intro i _
    refine WP.ite (fun _ => ?_) fun _ => WP.pure ⟨hwritten, fun hf => by cases hf⟩
    exact WP.pure ⟨hwritten, fun _ => hcandidate⟩
  unfold Daemon.applyFiles
  cases hreq : req.adminAllowlist with
  | none =>
    rw [hreq] at hlist
    subst hlist
    exact hconfig s h hlive fun entries he => by simp [hreq] at he
  | some entries =>
    obtain ⟨raw, hraw⟩ := Option.ne_none_iff_exists'.mp (hasked entries hreq)
    obtain rfl : allowlist = some raw := by simpa [hreq, hraw] using hlist
    have hwritten : Applying d t req cap ((Write.allowlist (some raw) (some t.id)).apply s) :=
      h.allowlist (by simp [hreq])
    refine WP.bind (wp_writeAdminAllowlistRaw hI (h.guarded hwritten rfl) ?_ fun _ => ⟨h, hwritten⟩)
    refine hconfig _ hwritten hlive fun entries' he => ?_
    obtain rfl : entries = entries' := Option.some.inj (hreq.symm.trans he)
    exact hraw.symm

/-- A candidate is kept only when it is completely in place. -/
theorem wp_applyCandidate (hlate : ¬ Prompt I → late) {allowlist : Option Bytes} (h : Applying d t req cap s)
    (hlist : allowlist = req.adminAllowlist.bind d.allowlistRaw)
    (hasked : ∀ entries, req.adminAllowlist = some entries → d.allowlistRaw entries ≠ none) :
    WP I (Guarded d late op) (d.applyCandidate t allowlist req.config)
      (fun r s' => Inv d s' ∧ (r.2 = true → Applying d r.1 req cap s' ∧ Candidate d s' req))
      (fun _ s' => Inv d s') s := by
  have hroll : ∀ t' s' reason, InHand d late t' req cap s' → WP I (Guarded d late op)
      (do
        let t ← d.rollBack t' reason
        pure (t, false))
      (fun r s' => Inv d s' ∧ (r.2 = true → Applying d r.1 req cap s' ∧ Candidate d s' req))
      (fun _ s' => Inv d s') s' := by
    intro t' s' reason hhand
    refine WP.bind ((wp_rollBack hI hlate hhand).mono ?_ fun _ _ he => he.1)
    rintro t₁ s₁ ⟨hinv, -⟩
    exact WP.pure ⟨hinv, fun hf => by cases hf⟩
  refine WP.bind ((wp_applyGeoip hI h).mono ?_ fun _ _ he => he)
  rintro ⟨t₁, prepared⟩ s₁ ⟨h₁, hlive⟩
  cases prepared with
  | error e => exact hroll t₁ s₁ _ h₁.inHand
  | ok _ =>
    refine WP.bind (wp_attempt ((wp_applyFiles hI h₁ (hlive rfl) hlist hasked).mono ?_ ?_))
    · rintro failure s₂ ⟨h₂, hcandidate⟩
      cases failure with
      | none => exact WP.pure ⟨h₂.inv, fun _ => ⟨h₂, hcandidate rfl⟩⟩
      | some reason =>
        refine WP.bind ((wp_rollbackConfigTransactionLocked hI h₂.inHand hlate).mono ?_ fun _ _ he => he)
        rintro ⟨t₃, raised⟩ s₃ hrolled
        cases raised with
        | ok _ => exact WP.pure ⟨hrolled.inv, fun hf => by cases hf⟩
        | error e =>
          -- the exception of the rollback is caught and the rollback done once more
          refine hroll t₃ s₃ _ ⟨hrolled.inv, hrolled.begun, hrolled.recorded, hrolled.material, fun hl old ho => ?_⟩
          have hactive := (hrolled.raised e rfl).2 hl old ho
          exact ⟨hactive.1, hactive.2.trans hrolled.id.symm⟩
    · intro e s₂ h₂
      exact hroll t₁ s₂ _ h₂.inHand

/-! ## Capturing -/

theorem wp_verifyCandidateConfigSources {candidate : Dict SourceName Bytes} {E : Exc → World → Prop}
    {Q : Unit → World → Prop} {G : World → Write → World → Prop}
    (hQ : (∀ name content, candidate.get? name = some content → s.host.sources name = some content) → Q () s)
    (hE : ∀ e, E e s) : WP I G (Daemon.verifyCandidateConfigSources candidate) Q E s := by
  -- the entries that are not ahead any more have been found in place
  refine (WP.forM (J := fun rest s' => s' = s ∧
    ∀ e ∈ candidate.entries, e ∉ rest → s.host.sources e.1 = some e.2) ⟨rfl, fun e he hn => absurd he hn⟩ ?_).mono
    ?_ fun _ _ he => he
  · rintro x rest s' hsuf ⟨rfl, hdone⟩
    refine WP.bind (wp_readHost hI ?_ fun _ => hE _)
    refine wp_require (fun hlive => ⟨rfl, fun e he hn => ?_⟩) fun _ => hE _
    by_cases hx : e = x
    · rw [hx]
      exact hlive
    · exact hdone e he fun hin => (List.mem_cons.mp hin).elim hx hn
  · rintro _ s' ⟨rfl, hdone⟩
    exact hQ fun name content hget => hdone (name, content) (Dict.mem_entries.mpr hget) List.not_mem_nil

/-- The allow list as captured, and the candidate that belongs to it. -/
theorem wp_captureAllowlist {E : Exc → World → Prop} {Q : Option (AllowlistState × Bytes) → World → Prop}
    {G : World → Write → World → Prop}
    (hQ : ∀ captured, captured.map Prod.snd = req.adminAllowlist.bind d.allowlistRaw →
      (∀ entries, req.adminAllowlist = some entries → d.allowlistRaw entries ≠ none) →
      (∀ a raw, captured = some (a, raw) → s.host.allowlist = a.before ∧ a.candidateSha256 = d.sha256 raw) →
      Q captured s)
    (hE : ∀ e, E e s) : WP I G (d.captureAllowlist req) Q E s := by
  unfold Daemon.captureAllowlist
  cases hreq : req.adminAllowlist with
  | none => exact WP.pure (hQ none (by simp [hreq]) (by simp [hreq]) fun a raw hc => by cases hc)
  | some entries =>
    dsimp only
    cases hraw : d.allowlistRaw entries with
    | none => exact WP.throw (hE _)
    | some raw =>
      refine WP.bind (wp_readHost hI (WP.pure (hQ _ (by simp [hreq, hraw]) (by simp [hreq, hraw]) ?_)) fun _ => hE _)
      intro a raw' hc
      cases hc
      refine ⟨?_, rfl⟩
      unfold AllowlistState.before
      cases s.host.allowlist <;> rfl

theorem wp_captureGeoip {E : Exc → World → Prop} {Q : Option GeoipState → World → Prop}
    {G : World → Write → World → Prop}
    (hQ : ∀ captured, (captured = none → req.geoipSelection = none) →
      (∀ g, captured = some g → s.host.selection = g.before ∧ s.host.release = g.previousRelease ∧
        req.geoipSelection = some g.candidateSelection ∧ g.candidateFingerprint = none) → Q captured s)
    (hE : ∀ e, E e s) : WP I G (d.captureGeoip req) Q E s := by
  unfold Daemon.captureGeoip
  cases hreq : req.geoipSelection with
  | none => exact WP.pure (hQ none (fun _ => hreq) fun g hg => by cases hg)
  | some selection =>
    apply WP.bind
    apply WP.ask hI.lock
    intro i _
    refine WP.ite (fun _ => ?_) fun _ => WP.throw (hE _)
    refine WP.bind (wp_geoipSelection hI (fun _ _ => ?_) hE)
    refine WP.bind (wp_readHost hI (WP.pure (hQ _ (fun hn => by cases hn) fun g hg => ?_)) fun _ => hE _)
    cases hg
    refine ⟨?_, rfl, hreq, rfl⟩
    unfold GeoipState.before
    cases s.host.selection <;> rfl

/-! ## The operation -/

theorem wp_begin (hlate : ¬ Prompt I → late) (h : Inv d s) :
    WP I (Guarded d late op) (d.beginConfigTransaction req) (fun _ s' => Inv d s') (fun _ s' => Inv d s') s := by
  refine WP.bind (wp_require (fun _ => ?_) fun _ => h)
  apply WP.bind
  apply WP.ask hI.lock
  intro i _
  refine WP.bind (wp_require (fun _ => ?_) fun _ => h)
  refine WP.bind ((wp_ensureNoActive hI hlate h).mono ?_ fun _ _ he => he)
  rintro _ s₁ ⟨h₁, hfree⟩
  refine WP.bind (wp_require (fun _ => ?_) fun _ => h₁)
  refine WP.bind (wp_require (fun _ => ?_) fun _ => h₁)
  refine WP.bind (wp_require (fun _ => ?_) fun _ => h₁)
  refine WP.bind (wp_verifyCandidateConfigSources hI (fun hsources => ?_) fun _ => h₁)
  refine WP.bind (wp_captureAllowlist hI (fun allowlist hlist hasked hallow => ?_) fun _ => h₁)
  refine WP.bind (wp_captureGeoip hI (fun geoip hnone hgeoip => ?_) fun _ => h₁)
  refine WP.bind (wp_readHost hI ?_ fun _ => h₁)
  refine WP.bind (wp_require (fun _ => ?_) fun _ => h₁)
  refine WP.bind (wp_require (fun _ => ?_) fun _ => h₁)
  apply WP.bind
  apply WP.ask hI.token
  intro i _
  refine WP.bind (wp_readHost hI ?_ fun _ => h₁)
  dsimp only
  set t : Transaction :=
    { id := i.nextToken.1
      state := .prepared
      candidateSha256 := d.sha256 req.config
      candidateSourceSha256 := req.candidate.mapValues fun _ content => d.sha256 content
      previousConfig := some s₁.host.config
      previousSources := some req.previous
      allowlist := allowlist.map Prod.fst
      geoip } with ht
  set cap := s₁.host.setSources req.previous with hcap
  have hholds : Holds d t req cap := by
    refine ⟨rfl, rfl, fun name content hget => ?_, fun a ha => ?_, fun hn => ?_, fun g hg => ?_, hnone⟩
    · simp [hcap, Host.setSources, hget]
    · obtain ⟨⟨a', raw⟩, hsome, rfl⟩ := Option.map_eq_some_iff.mp ha
      obtain ⟨hbefore, hsha⟩ := hallow a' raw hsome
      rw [hsome] at hlist
      obtain ⟨entries, hentries, hraw⟩ := Option.bind_eq_some_iff.mp hlist.symm
      exact ⟨hbefore, entries, raw, hentries, hraw, hsha⟩
    · rw [Option.map_eq_none_iff.mp hn] at hlist
      cases hreq : req.adminAllowlist with
      | none => rfl
      | some entries =>
        rw [hreq] at hlist
        exact absurd hlist.symm (hasked entries hreq)
    · obtain ⟨hselection, hrelease, hsel, hfinger⟩ := hgeoip g hg
      exact ⟨hselection, hrelease, hsel, fun f hf => by simp [hfinger] at hf⟩
  have happlying : Applying d t req cap ((Write.begin t req).apply s₁) := by
    refine ⟨⟨t, rfl, rfl, rfl, ⟨rfl, rfl⟩, hholds⟩, rfl, ⟨rfl, rfl⟩, hholds, rfl, rfl, ?_, hsources⟩
    refine ⟨fun name hn => ?_, fun _ => rfl, fun _ => ⟨rfl, rfl⟩⟩
    simp [hcap, Host.setSources, hn, Write.apply]
  refine WP.bind (wp_persist hI (guarded_begin happlying.inv rfl hfree) ?_ (fun _ => h₁) fun _ _ => happlying.inv)
  refine WP.bind ((wp_applyCandidate hI hlate happlying hlist hasked).mono ?_ fun _ _ he => he)
  rintro ⟨t₂, kept⟩ s₂ ⟨hinv₂, hkept⟩
  refine WP.ite (fun hk => ?_) fun _ => WP.pure hinv₂
  obtain ⟨h₂, hcandidate⟩ := hkept hk
  refine WP.bind (wp_readClock hI (fun now => guarded_clock hinv₂) fun now => ?_)
  dsimp only
  set t₃ : Transaction :=
    { t₂ with state := .pendingConfirmation, deadline := now + 1000 * req.timeoutSeconds.toNat } with ht₃
  have hinv₃ : Inv d ((Write.persist t₃).apply ((Write.clock now).apply s₂)) := by
    refine inv_persist h₂.begun ⟨h₂.recorded.config, h₂.recorded.sources⟩ ⟨⟨?_, fun _ => h₂.untouched⟩, fun _ => ?_⟩
    · exact ⟨h₂.holds.config, h₂.holds.sources, h₂.holds.named, h₂.holds.allowlist, h₂.holds.allowlistAsked,
        h₂.holds.geoip, h₂.holds.geoipAsked⟩
    · exact ⟨hcandidate.config, hcandidate.sources, hcandidate.allowlist, hcandidate.geoip⟩
  refine WP.bind (wp_persist hI ?_ (WP.pure hinv₃) (fun _ => hinv₂.clock) fun _ _ => hinv₃)
  exact guarded_persist hinv₃ (fun hc => by cases hc) fun _ => h₂.active

end Applying

end EasyHaProxy.Controld
