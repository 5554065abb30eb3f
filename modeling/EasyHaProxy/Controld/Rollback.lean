import EasyHaProxy.Controld.Spec

/-! A rollback writes the host's files only while its own transaction is persisted as rolling back, and
persists `rolled_back` only where every file is as it was captured. -/
namespace EasyHaProxy.Controld

variable (d : Daemon)

/-- What every write of an operation keeps: the invariant; files written only by the
transaction that is active, or by a request that is not part of any; a confirmation only
where it is due; and, unless a persist can raise after it took effect, no settled
transaction persisted again. -/
structure Guarded (late : Prop) (op : Op) (s : World) (l : Write) (s' : World) : Prop where
  applied : s' = l.apply s
  inv : Inv d s'
  owned : ∀ owner, l.owner = some owner → ∀ t, s.transaction = some t → t.state.active = true →
    owner = some t.id
  begins : ∀ t req, l = .begin t req → t.state = .prepared ∧
    ∀ old, s.transaction = some old → old.state.active = false
  confirms : ∀ t, l = .persist t → t.state = .confirmed → Approves d op s t
  foreign : l.owner = some none → op.foreign = true
  records : ∀ v, l = .addVersion v → op.confirms = true ∧ v.transactionId = ""
  drops : ∀ id, l = .dropVersion id → op.confirms = true
  settled : ¬ late → ∀ t, l = .persist t → ∀ old, s.transaction = some old → old.state.active = true ∧ old.id = t.id

variable {d} {late : Prop} {op : Op} {I : Script → Prop} {s s' : World}
  {t : Transaction} {req : BeginRequest} {cap : Host}

structure Rolling (d : Daemon) (t : Transaction) (req : BeginRequest) (cap : Host) (s : World) : Prop where
  disk : s.transaction = some t
  state : t.state = .rollingBack
  begun : s.begun = some (req, cap)
  recorded : Recorded d t req
  ready : Ready d s t req cap

theorem Rolling.inv (h : Rolling d t req cap s) : Inv d s := by
  intro t' ht'
  obtain rfl : t = t' := Option.some.inj (h.disk.symm.trans ht')
  refine ⟨req, cap, h.begun, h.recorded, ?_⟩
  unfold Promises
  rw [h.state]
  exact Or.inl h.ready

/-- A file of the transaction's own is written. -/
theorem Rolling.guarded {l : Write} (h : Rolling d t req cap s) (h' : Rolling d t req cap (l.apply s))
    (hl : l.owner = some (some t.id)) : Guarded d late op s l (l.apply s) where
  applied := rfl
  inv := h'.inv
  owned owner ho t' ht' _ := by
    obtain rfl : t = t' := Option.some.inj (h.disk.symm.trans ht')
    exact Option.some.inj (ho.symm.trans hl)
  begins t' req' hb := by
    rw [hb] at hl
    cases hl
  confirms t' hp := by
    rw [hp] at hl
    cases hl
  foreign ho := by
    rw [hl] at ho
    cases ho
  records v hv := by
    rw [hv] at hl
    cases hl
  drops id hd := by
    rw [hd] at hl
    cases hl
  settled _ t' hp := by
    rw [hp] at hl
    cases hl

/-- Only the host changed, and what the transaction does not name stayed. -/
theorem Rolling.host {host : Host} (h : Rolling d t req cap s)
    (hu : Untouched s.host req cap → Untouched host req cap) :
    Rolling d t req cap { s with host := host } where
  disk := h.disk
  state := h.state
  begun := h.begun
  recorded := h.recorded
  ready := ⟨h.ready.holds, fun he => hu (h.ready.untouched he)⟩

theorem Rolling.config {raw : Bytes} (h : Rolling d t req cap s) :
    Rolling d t req cap ((Write.config raw (some t.id)).apply s) := by
  have hsame : (Write.config raw (some t.id)).apply s = { s with host := { s.host with config := raw } } := by
    simp [Write.apply]
  rw [hsame]
  exact h.host fun hu => ⟨hu.sources, hu.allowlist, hu.geoip⟩

theorem Rolling.source {name : SourceName} {content : Bytes} {owner : Option String}
    (h : Rolling d t req cap s) (hn : req.previous.get? name = some content) :
    Rolling d t req cap ((Write.source name content owner).apply s) := by
  refine h.host fun hu => ⟨fun other ho => ?_, hu.allowlist, hu.geoip⟩
  have hne : other ≠ name := by
    rintro rfl
    rw [hn] at ho
    cases ho
  simpa [Host.setSource, Function.update_of_ne hne] using hu.sources other ho

theorem Rolling.allowlist {raw : Option Bytes} {owner : Option String} (h : Rolling d t req cap s)
    (hn : t.allowlist ≠ none) : Rolling d t req cap ((Write.allowlist raw owner).apply s) :=
  h.host fun hu => ⟨hu.sources, fun hnone => absurd hnone (h.ready.holds.allowlist_asked hn), hu.geoip⟩

theorem Rolling.selection {raw : Option Bytes} {owner : Option String} (h : Rolling d t req cap s)
    (hn : t.geoip ≠ none) : Rolling d t req cap ((Write.selection raw owner).apply s) :=
  h.host fun hu => ⟨hu.sources, hu.allowlist, fun hnone => absurd hnone (h.ready.holds.geoip_asked hn)⟩

theorem Rolling.release {name : String} {owner : Option String} (h : Rolling d t req cap s)
    (hn : t.geoip ≠ none) : Rolling d t req cap ((Write.release name owner).apply s) :=
  h.host fun hu => ⟨hu.sources, hu.allowlist, fun hnone => absurd hnone (h.ready.holds.geoip_asked hn)⟩

/-! ## Restoring -/

section Restoring

variable (hI : Closed I)

include hI

theorem wp_restoreSources (h : Rolling d t req cap s) :
    WP I (Guarded d late op) (Daemon.restoreSources t)
      (fun _ s' => Rolling d t req cap s' ∧
        ∀ name content, req.previous.get? name = some content → s'.host.sources name = some content)
      (fun _ s' => Rolling d t req cap s') s := by
  unfold Daemon.restoreSources
  rw [h.ready.holds.sources]
  refine WP.bind (wp_readHost hI ?_ fun _ => h)
  -- the entries that are not ahead any more are in place
  refine (WP.forM (J := fun rest s' => Rolling d t req cap s' ∧
    ∀ e ∈ req.previous.entries, e ∉ rest → s'.host.sources e.1 = some e.2)
    ⟨h, fun e he hn => absurd he hn⟩ ?_).mono ?_ (fun _ _ he => he)
  · rintro ⟨name, content⟩ rest s' hsuf ⟨hr, hdone⟩
    have hmem : (name, content) ∈ req.previous.entries := hsuf.subset List.mem_cons_self
    have hget : req.previous.get? name = some content := Dict.mem_entries.mp hmem
    have hnext : Rolling d t req cap ((Write.source name content (some t.id)).apply s') := hr.source hget
    refine wp_replace hI (hr.guarded hnext rfl) ⟨hnext, fun e he hn => ?_⟩ hr hnext
    by_cases hsame : e.1 = name
    · have hcontent : req.previous.get? name = some e.2 := hsame ▸ Dict.mem_entries.mp he
      have heq : e.2 = content := Option.some.inj (hcontent.symm.trans hget)
      simp [Write.apply, Host.setSource, hsame, heq]
    · have hold : s'.host.sources e.1 = some e.2 := by
        refine hdone e he fun hin => ?_
        rcases List.mem_cons.mp hin with he' | he'
        · exact hsame (congrArg Prod.fst he')
        · exact hn he'
      simpa [Write.apply, Host.setSource, Function.update_of_ne hsame] using hold
  · rintro _ s' ⟨hr, hdone⟩
    exact ⟨hr, fun name content hget => hdone (name, content) (Dict.mem_entries.mpr hget) List.not_mem_nil⟩

/-- The allow list is restored, and whatever holds of the other files stays. -/
theorem wp_restoreTransactionAdminAllowlist {P : Host → Prop}
    (hP : ∀ h a, P h → P { h with allowlist := a }) (h : Rolling d t req cap s) (hs : P s.host) :
    WP I (Guarded d late op) (d.restoreTransactionAdminAllowlist t)
      (fun _ s' => Rolling d t req cap s' ∧ P s'.host ∧
        (t.allowlist ≠ none → s'.host.allowlist = cap.allowlist))
      (fun _ s' => Rolling d t req cap s' ∧ P s'.host) s := by
  unfold Daemon.restoreTransactionAdminAllowlist
  cases ha : t.allowlist with
  | none => exact WP.pure ⟨h, hs, fun hn => absurd rfl hn⟩
  | some admin =>
    have hsome : t.allowlist ≠ none := by simp [ha]
    have hbefore := (h.ready.holds.allowlist admin ha).1
    -- what is left is the check
    have hcheck : ∀ s', Rolling d t req cap s' → P s'.host →
        WP I (Guarded d late op)
          (do
            let host ← readHost
            require (host.allowlist = admin.before)
              (.runtimeError "admin allow list rollback could not be verified"))
          (fun _ s' => Rolling d t req cap s' ∧ P s'.host ∧
            (some admin ≠ none → s'.host.allowlist = cap.allowlist))
          (fun _ s' => Rolling d t req cap s' ∧ P s'.host) s' := by
      intro s' hr hp
      refine WP.bind (wp_readHost hI ?_ fun _ => ⟨hr, hp⟩)
      exact wp_require (fun heq => ⟨hr, hp, fun _ => heq.trans hbefore.symm⟩) (fun _ => ⟨hr, hp⟩)
    have hwrite : ∀ raw, Rolling d t req cap ((Write.allowlist raw (some t.id)).apply s) :=
      fun raw => h.allowlist hsome
    refine WP.ite (fun _ => ?_) (fun _ => ?_)
    · refine WP.bind (wp_writeAdminAllowlistRaw hI (h.guarded (hwrite _) rfl) ?_ fun _ => ⟨⟨h, hs⟩, ?_⟩)
      · exact hcheck _ (hwrite _) (hP _ _ hs)
      · exact ⟨hwrite _, hP _ _ hs⟩
    · refine WP.bind (wp_readHost hI ?_ fun _ => ⟨h, hs⟩)
      refine WP.bind (WP.when (fun _ => ?_) (fun _ => hcheck _ h hs))
      refine wp_replace hI (h.guarded (hwrite _) rfl) ?_ ⟨h, hs⟩ ⟨hwrite _, hP _ _ hs⟩
      exact hcheck _ (hwrite _) (hP _ _ hs)

theorem wp_geoipSelection {Q : Selection × Option Bytes → World → Prop} {E : Exc → World → Prop}
    {G : World → Write → World → Prop}
    (hQ : ∀ selection, (∀ raw, s.host.selection = some raw → d.readSelection raw = some selection) →
      Q (selection, s.host.selection) s) (hE : ∀ e, E e s) : WP I G d.geoipSelection Q E s := by
  refine WP.bind (wp_readHost hI ?_ fun _ => hE _)
  cases hs : s.host.selection with
  | none => exact WP.pure (hs ▸ hQ _ fun raw hraw => by simp [hs] at hraw)
  | some raw =>
    dsimp only
    cases hread : d.readSelection raw with
    | none => exact WP.throw (hE _)
    | some selection =>
      refine WP.pure (hs ▸ hQ selection fun raw' hraw => ?_)
      obtain rfl : raw = raw' := Option.some.inj (hs.symm.trans hraw)
      exact hread

theorem wp_switchGeoipRelease {P : Host → Prop} {name : String}
    (hP : ∀ h n, P h → P { h with release := n }) (hn : t.geoip ≠ none) (h : Rolling d t req cap s)
    (hs : P s.host) :
    WP I (Guarded d late op) (Daemon.switchGeoipRelease name (some t.id))
      (fun _ s' => Rolling d t req cap s' ∧ P s'.host) (fun _ s' => Rolling d t req cap s' ∧ P s'.host) s := by
  have hnext : Rolling d t req cap ((Write.release name (some t.id)).apply s) := h.release hn
  refine WP.bind (WP.get (WP.bind (wp_require (fun _ => ?_) fun _ => ⟨h, hs⟩)))
  refine WP.bind (wp_readHost hI ?_ fun _ => ⟨h, hs⟩)
  refine WP.when (fun _ => ?_) (fun _ => ⟨h, hs⟩)
  exact wp_replace hI (h.guarded hnext rfl) ⟨hnext, hP _ _ hs⟩ ⟨h, hs⟩ ⟨hnext, hP _ _ hs⟩

/-- The GeoIP state is restored, and whatever holds of the other files stays. -/
theorem wp_restoreTransactionGeoip {P : Host → Prop} (hsel : ∀ h a, P h → P { h with selection := a })
    (hrel : ∀ h n, P h → P { h with release := n }) (h : Rolling d t req cap s) (hs : P s.host) :
    WP I (Guarded d late op) (d.restoreTransactionGeoip t)
      (fun _ s' => Rolling d t req cap s' ∧ P s'.host ∧
        (t.geoip ≠ none → s'.host.selection = cap.selection ∧ s'.host.release = cap.release))
      (fun _ s' => Rolling d t req cap s' ∧ P s'.host) s := by
  unfold Daemon.restoreTransactionGeoip
  cases hg : t.geoip with
  | none => exact WP.pure ⟨h, hs, fun hn => absurd rfl hn⟩
  | some geoip =>
    have hsome : t.geoip ≠ none := by simp [hg]
    obtain ⟨hselection, hrelease, -⟩ := h.ready.holds.geoip geoip hg
    -- what is left is the switch and the checks
    have hrest : ∀ s', Rolling d t req cap s' → P s'.host →
        WP I (Guarded d late op)
          (do
            Daemon.switchGeoipRelease geoip.previousRelease (some t.id)
            let now ← d.geoipSelection
            require (now.2 = geoip.before) (.runtimeError "GeoIP selection rollback could not be verified")
            let host ← readHost
            require (host.release = geoip.previousRelease)
              (.runtimeError "GeoIP release rollback could not be verified"))
          (fun _ s' => Rolling d t req cap s' ∧ P s'.host ∧
            (some geoip ≠ none → s'.host.selection = cap.selection ∧ s'.host.release = cap.release))
          (fun _ s' => Rolling d t req cap s' ∧ P s'.host) s' := by
      intro s' hr hp
      refine WP.bind ((wp_switchGeoipRelease hI hrel hsome hr hp).mono ?_ fun _ _ he => he)
      rintro _ s₁ ⟨hr₁, hp₁⟩
      refine WP.bind (wp_geoipSelection hI (fun selection _ => ?_) fun _ => ⟨hr₁, hp₁⟩)
      refine WP.bind (wp_require (fun hsel₁ => ?_) fun _ => ⟨hr₁, hp₁⟩)
      refine WP.bind (wp_readHost hI ?_ fun _ => ⟨hr₁, hp₁⟩)
      refine wp_require (fun hrel₁ => ⟨hr₁, hp₁, fun _ => ⟨?_, ?_⟩⟩) fun _ => ⟨hr₁, hp₁⟩
      · exact hsel₁.trans hselection.symm
      · exact hrel₁.trans hrelease.symm
    have hwrite : ∀ raw, Rolling d t req cap ((Write.selection raw (some t.id)).apply s) :=
      fun raw => h.selection hsome
    refine WP.ite (fun _ => ?_) (fun _ => ?_)
    · refine WP.bind (wp_writeGeoipSelectionRaw hI (h.guarded (hwrite _) rfl) (fun _ => ?_) fun _ =>
        ⟨⟨h, hs⟩, ?_⟩)
      · exact hrest _ (hwrite _) (hsel _ _ hs)
      · exact ⟨hwrite _, hsel _ _ hs⟩
    · refine WP.bind (wp_readHost hI ?_ fun _ => ⟨h, hs⟩)
      refine WP.bind (WP.when (fun _ => ?_) (fun _ => hrest _ h hs))
      refine wp_replace hI (h.guarded (hwrite _) rfl) ?_ ⟨h, hs⟩ ⟨hwrite _, hsel _ _ hs⟩
      exact hrest _ (hwrite _) (hsel _ _ hs)

theorem wp_haproxyWriteConfig {raw : Bytes} {owner : Option String} {Q : Unit → World → Prop}
    {E : Exc → World → Prop} {G : World → Write → World → Prop}
    (hG : G s (.config raw owner) ((Write.config raw owner).apply s))
    (hQ : Q () ((Write.config raw owner).apply s))
    (hE : ∀ e, E e s ∧ E e ((Write.config raw owner).apply s)) :
    WP I G (d.haproxyWriteConfig raw owner) Q E s := by
  refine WP.bind (wp_require (fun _ => ?_) fun _ => (hE _).1)
  refine WP.bind (wp_require (fun _ => ?_) fun _ => (hE _).1)
  apply WP.bind
  apply WP.ask hI.check
  intro i hi
  cases i.nextCheck.1 with
  | true => exact wp_replace hI hG hQ (hE _).1 (hE _).2
  | false => exact WP.throw (hE _).1

/-- The configuration is restored, and whatever holds of the other files stays. -/
theorem wp_restoreConfig {P : Host → Prop} {E : Exc → World → Prop}
    (hP : ∀ h raw, P h → P { h with config := raw }) (h : Rolling d t req cap s) (hs : P s.host) :
    WP I (Guarded d late op) (d.restoreConfig t)
      (fun ok s' => Rolling d t req cap s' ∧ P s'.host ∧ (ok = true → s'.host.config = cap.config)) E s := by
  unfold Daemon.restoreConfig
  rw [h.ready.holds.config]
  have hnext : Rolling d t req cap ((Write.config cap.config (some t.id)).apply s) := h.config
  refine WP.bind (wp_attempt (wp_haproxyWriteConfig hI (h.guarded hnext rfl) ?_ fun e => ⟨?_, ?_⟩))
  · apply WP.bind
    apply WP.ask hI.reload
    intro i _
    refine WP.ite (fun _ => ?_) (fun _ => ?_)
    · exact WP.ask hI.probe fun i _ => ⟨hnext, hP _ _ hs, fun _ => rfl⟩
    · exact WP.pure ⟨hnext, hP _ _ hs, fun _ => rfl⟩
  · exact WP.pure ⟨h, hs, fun hf => Bool.noConfusion hf⟩
  · exact WP.pure ⟨hnext, hP _ _ hs, fun _ => rfl⟩

end Restoring

/-! ## The rollback as a whole -/

/-- What was restored and what was never touched is the whole host. -/
theorem restored_eq {host : Host} (hh : Holds d t req cap) (hu : Untouched host req cap)
    (hconfig : host.config = cap.config)
    (hsources : ∀ name content, req.previous.get? name = some content → host.sources name = some content)
    (hallowlist : t.allowlist ≠ none → host.allowlist = cap.allowlist)
    (hgeoip : t.geoip ≠ none → host.selection = cap.selection ∧ host.release = cap.release) :
    host = cap := by
  have hlist : host.allowlist = cap.allowlist := by
    by_cases hn : t.allowlist = none
    · exact hu.allowlist (hh.allowlistAsked hn)
    · exact hallowlist hn
  have hgeo : host.selection = cap.selection ∧ host.release = cap.release := by
    by_cases hn : t.geoip = none
    · exact hu.geoip (hh.geoipAsked hn)
    · exact hgeoip hn
  have hfiles : host.sources = cap.sources := by
    funext name
    cases hget : req.previous.get? name with
    | none => exact hu.sources name hget
    | some content => rw [hsources name content hget, hh.named name content hget]
  exact Host.ext hconfig hfiles hlist hgeo.1 hgeo.2

/-- A complete restore is the captured host, as far as nobody else wrote. -/
theorem wp_restoreTransaction (hI : Closed I) {E : Exc → World → Prop} (h : Rolling d t req cap s) :
    WP I (Guarded d late op) (d.restoreTransaction t)
      (fun ok s' => Rolling d t req cap s' ∧ (ok = true → s'.edited = false → s'.host = cap)) E s := by
  -- what the steps so far have restored
  let S : Bool → Host → Prop := fun ok host =>
    ok = true → ∀ name content, req.previous.get? name = some content → host.sources name = some content
  let A : Bool → Host → Prop := fun ok host => ok = true → t.allowlist ≠ none → host.allowlist = cap.allowlist
  let P : Bool → Host → Prop := fun ok host =>
    ok = true → t.geoip ≠ none → host.selection = cap.selection ∧ host.release = cap.release
  refine WP.bind ((wp_succeeds_adds (wp_restoreSources hI h)).mono ?_ fun _ _ he => he)
  rintro sourcesOk s₁ ⟨hr₁, hS⟩
  have hlist : WP I (Guarded d late op) (d.restoreTransactionAdminAllowlist t)
      (fun _ s' => (Rolling d t req cap s' ∧ S sourcesOk s'.host) ∧
        (t.allowlist ≠ none → s'.host.allowlist = cap.allowlist))
      (fun _ s' => Rolling d t req cap s' ∧ S sourcesOk s'.host) s₁ :=
    (wp_restoreTransactionAdminAllowlist hI (P := S sourcesOk) (fun _ _ hp => hp) hr₁ hS).mono
      (fun _ _ hq => ⟨⟨hq.1, hq.2.1⟩, hq.2.2⟩) fun _ _ he => he
  refine WP.bind ((wp_succeeds_adds hlist).mono ?_ fun _ _ he => he)
  rintro allowlistOk s₂ ⟨⟨hr₂, hS₂⟩, hA⟩
  have hgeo : WP I (Guarded d late op) (d.restoreTransactionGeoip t)
      (fun _ s' => (Rolling d t req cap s' ∧ S sourcesOk s'.host ∧ A allowlistOk s'.host) ∧
        (t.geoip ≠ none → s'.host.selection = cap.selection ∧ s'.host.release = cap.release))
      (fun _ s' => Rolling d t req cap s' ∧ S sourcesOk s'.host ∧ A allowlistOk s'.host) s₂ :=
    (wp_restoreTransactionGeoip hI (P := fun host => S sourcesOk host ∧ A allowlistOk host)
      (fun _ _ hp => hp) (fun _ _ hp => hp) hr₂ ⟨hS₂, hA⟩).mono
      (fun _ _ hq => ⟨⟨hq.1, hq.2.1⟩, hq.2.2⟩) fun _ _ he => he
  refine WP.bind ((wp_succeeds_adds hgeo).mono ?_ fun _ _ he => he)
  rintro geoipOk s₃ ⟨⟨hr₃, hS₃, hA₃⟩, hP⟩
  refine WP.bind ((wp_restoreConfig hI (P := fun host => S sourcesOk host ∧ A allowlistOk host ∧ P geoipOk host)
    (fun _ _ hp => hp) hr₃ ⟨hS₃, hA₃, hP⟩).mono ?_ fun _ _ he => he)
  rintro configOk s₄ ⟨hr₄, ⟨hS₄, hA₄, hP₄⟩, hC⟩
  refine WP.pure ⟨hr₄, fun hok hedited => ?_⟩
  simp only [Bool.and_eq_true] at hok
  obtain ⟨⟨⟨hc, hs⟩, ha⟩, hg⟩ := hok
  have huntouched := hr₄.ready.untouched hedited
  exact restored_eq hr₄.ready.holds huntouched (hC hc) (hS₄ hs) (hA₄ ha) (hP₄ hg)

theorem guarded_persist (hinv : Inv d ((Write.persist t).apply s)) (hc : t.state = .confirmed → Approves d op s t)
    (hactive : ¬ late → ∀ old, s.transaction = some old → old.state.active = true ∧ old.id = t.id) :
    Guarded d late op s (.persist t) ((Write.persist t).apply s) where
  applied := rfl
  inv := hinv
  owned owner ho := by cases ho
  begins t' req' hb := by cases hb
  confirms t' hp hs := by
    cases hp
    exact hc hs
  foreign ho := by cases ho
  records v hv := by cases hv
  drops id hd := by cases hd
  settled hl t' hp old hold := by
    cases hp
    exact hactive hl old hold

/-- A transaction persisted where the world is as its state promises. -/
theorem inv_persist (hb : s.begun = some (req, cap)) (hr : Recorded d t req)
    (hp : Promises d ((Write.persist t).apply s) t req cap) : Inv d ((Write.persist t).apply s) := by
  intro t' ht'
  obtain rfl : t = t' := Option.some.inj ht'
  exact ⟨req, cap, hb, hr, hp⟩

/-- A transaction in hand that can be rolled back, or that has lost its material. -/
structure InHand (d : Daemon) (late : Prop) (t : Transaction) (req : BeginRequest) (cap : Host) (s : World) :
    Prop where
  inv : Inv d s
  begun : s.begun = some (req, cap)
  recorded : Recorded d t req
  material : Ready d s t req cap ∨ Dropped t
  active : ¬ late → ∀ old, s.transaction = some old → old.state.active = true ∧ old.id = t.id

/-- How a rollback ends: the transaction in hand, and on disk unless an exception came. -/
structure Rolled (d : Daemon) (I : Script → Prop) (late : Prop) (t : Transaction) (req : BeginRequest)
    (cap : Host) (r : Transaction × Except Exc Unit) (s : World) : Prop where
  inv : Inv d s
  begun : s.begun = some (req, cap)
  recorded : Recorded d r.1 req
  id : r.1.id = t.id
  material : Ready d s r.1 req cap ∨ Dropped r.1
  raised : ∀ e, r.2 = .error e → ¬ PersistsDone I ∧
    (¬ late → ∀ old, s.transaction = some old → old.state.active = true ∧ old.id = t.id)
  settled : r.2 = .ok () → s.transaction = some r.1 ∧ (r.1.state = .rolledBack ∨ r.1.state = .rollbackFailed)

theorem Ready.setState {state : TransactionState} {reason : String} (h : Ready d s t req cap) :
    Ready d s { t with state := state, rollbackReason := reason } req cap where
  holds := ⟨h.holds.config, h.holds.sources, h.holds.named, h.holds.allowlist, h.holds.allowlistAsked,
    h.holds.geoip, h.holds.geoipAsked⟩
  untouched := h.untouched

theorem Recorded.setState {state : TransactionState} {reason : String} (h : Recorded d t req) :
    Recorded d { t with state := state, rollbackReason := reason } req := ⟨h.config, h.sources⟩

theorem wp_persistOutcome (hI : Closed I) {E : Exc → World → Prop} {t₁ t' : Transaction}
    (hdisk : s.transaction = some t₁) (hactive : t₁.state.active = true) (hid₁ : t₁.id = t.id)
    (hid : t'.id = t.id) (hinv : Inv d s) (hb : s.begun = some (req, cap)) (hr : Recorded d t' req)
    (hstate : t'.state = .rolledBack ∨ t'.state = .rollbackFailed)
    (hm : Ready d s t' req cap ∨ Dropped t')
    (hp : Promises d ((Write.persist t').apply s) t' req cap) (hlate : ¬ Prompt I → late) :
    WP I (Guarded d late op)
      (do
        let persisted ← attempt (Daemon.persistConfigTransaction t')
        pure (t', persisted))
      (Rolled d I late t req cap) E s := by
  have hconfirmed : t'.state ≠ .confirmed := by
    rcases hstate with h | h <;> rw [h] <;> decide
  have hinv' : Inv d ((Write.persist t').apply s) := inv_persist hb hr hp
  have hm' : Ready d ((Write.persist t').apply s) t' req cap ∨ Dropped t' := by
    rcases hm with hm | hm
    · exact Or.inl ⟨hm.holds, hm.untouched⟩
    · exact Or.inr hm
  have hold : ∀ old, s.transaction = some old → old.state.active = true ∧ old.id = t.id := by
    intro old ho
    obtain rfl : t₁ = old := Option.some.inj (hdisk.symm.trans ho)
    exact ⟨hactive, hid₁⟩
  apply WP.bind
  refine wp_attempt (wp_persist hI ?_ ?_ ?_ ?_)
  · exact guarded_persist hinv' (fun hc => absurd hc hconfirmed) fun _ old ho => hid ▸ hold old ho
  · exact WP.pure ⟨hinv', hb, hr, hid, hm', fun e he => (by cases he), fun _ => ⟨rfl, hstate⟩⟩
  · intro hdone
    refine WP.pure ⟨hinv, hb, hr, hid, hm, fun e _ => ⟨hdone, fun _ => hold⟩, fun h => by cases h⟩
  · intro hprompt hdone
    refine WP.pure ⟨hinv', hb, hr, hid, hm', fun e _ => ⟨hdone, fun hl => absurd (hlate hprompt) hl⟩,
      fun h => by cases h⟩

section Outcome

variable {restored : Bool}

theorem outcomeOf_id : (Daemon.outcomeOf t restored).id = t.id := by
  cases restored <;> rfl

theorem outcomeOf_state : (Daemon.outcomeOf t restored).state = .rolledBack ∨
    (Daemon.outcomeOf t restored).state = .rollbackFailed := by
  cases restored
  · exact Or.inr rfl
  · exact Or.inl rfl

theorem recorded_outcomeOf (h : Recorded d t req) : Recorded d (Daemon.outcomeOf t restored) req := by
  cases restored <;> exact ⟨h.config, h.sources⟩

theorem material_outcomeOf (h : Ready d s t req cap) :
    Ready d s (Daemon.outcomeOf t restored) req cap ∨ Dropped (Daemon.outcomeOf t restored) := by
  cases restored with
  | false => exact Or.inl h.setState
  | true => exact Or.inr ⟨rfl, rfl, rfl, rfl⟩

theorem promises_outcomeOf (h : Ready d s t req cap)
    (hr : restored = true → s.edited = false → s.host = cap) :
    Promises d ((Write.persist (Daemon.outcomeOf t restored)).apply s) (Daemon.outcomeOf t restored) req cap := by
  cases restored with
  | false => exact Or.inl ⟨h.setState.holds, h.untouched⟩
  | true => exact hr rfl

end Outcome

/-- Without material every restore that matters fails, and nothing is written. -/
theorem wp_restoreNothing {G : World → Write → World → Prop} {E : Exc → World → Prop} (h : Dropped t) :
    WP I G (d.restoreTransaction t) (fun ok s' => ok = false ∧ s' = s) E s := by
  unfold Daemon.restoreTransaction Daemon.restoreSources Daemon.restoreTransactionAdminAllowlist
    Daemon.restoreTransactionGeoip Daemon.restoreConfig
  rw [h.sources, h.allowlist, h.geoip, h.config]
  refine WP.bind (wp_succeeds (WP.throw ?_))
  refine WP.bind (wp_succeeds (WP.pure ?_))
  refine WP.bind (wp_succeeds (WP.pure ?_))
  exact WP.bind (WP.pure (WP.pure ⟨rfl, rfl⟩))

theorem wp_rollbackConfigTransactionLocked (hI : Closed I) {E : Exc → World → Prop} {reason : String}
    (h : InHand d late t req cap s) (hlate : ¬ Prompt I → late) :
    WP I (Guarded d late op) (d.rollbackConfigTransactionLocked t reason)
      (Rolled d I late t req cap) E s := by
  unfold Daemon.rollbackConfigTransactionLocked
  set t₁ : Transaction := { t with state := .rollingBack, rollbackReason := reason } with ht₁
  have hr₁ : Recorded d t₁ req := h.recorded.setState
  have hm₁ : Ready d s t₁ req cap ∨ Dropped t₁ := by
    rcases h.material with hm | hm
    · exact Or.inl hm.setState
    · exact Or.inr ⟨hm.config, hm.sources, hm.allowlist, hm.geoip⟩
  have hm₁' : Ready d ((Write.persist t₁).apply s) t₁ req cap ∨ Dropped t₁ := by
    rcases hm₁ with hm | hm
    · exact Or.inl ⟨hm.holds, hm.untouched⟩
    · exact Or.inr hm
  have hinv₁ : Inv d ((Write.persist t₁).apply s) := inv_persist h.begun hr₁ hm₁'
  apply WP.bind
  refine wp_attempt (wp_persist hI ?_ ?_ ?_ ?_)
  · exact guarded_persist hinv₁ (fun hc => by cases hc) h.active
  · rcases hm₁' with hready | hdropped
    · have hrolling : Rolling d t₁ req cap ((Write.persist t₁).apply s) := ⟨rfl, rfl, h.begun, hr₁, hready⟩
      refine WP.bind ((wp_restoreTransaction hI hrolling).mono ?_ fun _ _ he => he)
      rintro restored s₁ ⟨hr, hrestored⟩
      exact wp_persistOutcome hI hr.disk (by rw [hr.state]; rfl) rfl outcomeOf_id hr.inv hr.begun
        (recorded_outcomeOf hr.recorded) outcomeOf_state (material_outcomeOf hr.ready)
        (promises_outcomeOf hr.ready hrestored) hlate
    · -- without its material nothing is written, and the rollback fails
      refine WP.bind ((wp_restoreNothing hdropped).mono ?_ fun _ _ he => he)
      rintro restored s₁ ⟨rfl, rfl⟩
      refine wp_persistOutcome hI rfl rfl rfl rfl hinv₁ h.begun hr₁.setState (Or.inr rfl) (Or.inr ?_)
        (Or.inr ?_) hlate
      · exact ⟨hdropped.config, hdropped.sources, hdropped.allowlist, hdropped.geoip⟩
      · exact ⟨hdropped.config, hdropped.sources, hdropped.allowlist, hdropped.geoip⟩
  · intro hdone
    exact WP.pure ⟨h.inv, h.begun, hr₁, rfl, hm₁, fun e _ => ⟨hdone, h.active⟩, fun h => by cases h⟩
  · intro hprompt hdone
    exact WP.pure ⟨hinv₁, h.begun, hr₁, rfl, hm₁', fun e _ => ⟨hdone, fun hl => absurd (hlate hprompt) hl⟩,
      fun h => by cases h⟩

end EasyHaProxy.Controld
