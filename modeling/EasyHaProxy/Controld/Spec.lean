import EasyHaProxy.Controld.Transaction

/-! Rules for the primitives, for any set of scripts that is closed under answering, and the invariant that
ties the persisted transaction to the host's files. Every write of every operation keeps it. -/
namespace EasyHaProxy.Controld

/-! ## Scripts -/

/-- A set of scripts that every question leaves within itself. -/
structure Closed (I : Script → Prop) : Prop where
  lock : ∀ i, I i → I i.nextLock.2
  read : ∀ i, I i → I i.nextRead.2
  persist : ∀ i, I i → I i.nextPersist.2
  write : ∀ i, I i → I i.nextWrite.2
  check : ∀ i, I i → I i.nextCheck.2
  reload : ∀ i, I i → I i.nextReload.2
  probe : ∀ i, I i → I i.nextProbe.2
  update : ∀ i, I i → I i.nextUpdate.2
  time : ∀ i, I i → I i.nextTime.2
  token : ∀ i, I i → I i.nextToken.2

/-- No replacement of `transaction.json` raises after it took effect. -/
def Prompt (I : Script → Prop) : Prop := ∀ i, I i → i.nextPersist.1 ≠ .late

def PersistsDone (I : Script → Prop) : Prop := ∀ i, I i → i.nextPersist.1 = .done

def ReadsDone (I : Script → Prop) : Prop := ∀ i, I i → i.nextRead.1 = true

/-- The replacements of all other files succeed. -/
def WritesDone (I : Script → Prop) : Prop := ∀ i, I i → i.nextWrite.1 = .done

section Primitives

variable {I : Script → Prop} {G : World → Write → World → Prop} {s : World} {α : Type}
  {Q : α → World → Prop} {E : Exc → World → Prop}

theorem wp_perform {l : Write} {Q : Unit → World → Prop} (hG : G s l (l.apply s)) (hQ : Q () (l.apply s)) :
    WP I G (perform l) Q E s := WP.write hG hQ

theorem wp_require {c : Prop} [Decidable c] {e : Exc} {Q : Unit → World → Prop} (hQ : c → Q () s)
    (hE : ¬ c → E e s) : WP I G (require c e) Q E s :=
  WP.when (fun h => WP.throw (hE h)) (fun h => hQ (not_not.mp h))

theorem wp_attempt {m : M α} {Q : Except Exc α → World → Prop}
    (h : WP I G m (fun a => Q (.ok a)) (fun e => Q (.error e)) s) : WP I G (attempt m) Q E s :=
  WP.tryCatch (WP.bind (h.mono (fun _ _ ha => WP.pure ha) (fun _ _ he => WP.pure he)))

theorem wp_succeeds {m : M Unit} {Q : Bool → World → Prop}
    (h : WP I G m (fun _ => Q true) (fun _ => Q false) s) : WP I G (succeeds m) Q E s := by
  apply WP.bind
  apply wp_attempt
  exact h.mono (fun _ _ ha => WP.pure ha) (fun _ _ he => WP.pure he)

/-- What holds at the end in any case, and what a success adds. -/
theorem wp_succeeds_adds {m : M Unit} {A B : World → Prop}
    (h : WP I G m (fun _ s' => A s' ∧ B s') (fun _ s' => A s') s) :
    WP I G (succeeds m) (fun ok s' => A s' ∧ (ok = true → B s')) E s :=
  wp_succeeds (h.mono (fun _ _ ha => ⟨ha.1, fun _ => ha.2⟩) (fun _ _ ha => ⟨ha, fun hf => Bool.noConfusion hf⟩))

variable (hI : Closed I)

include hI

theorem wp_persist {l : Write} {Q : Unit → World → Prop} (hG : G s l (l.apply s)) (hQ : Q () (l.apply s))
    (hfailed : ¬ PersistsDone I → E .osError s) (hlate : ¬ Prompt I → ¬ PersistsDone I → E .osError (l.apply s)) :
    WP I G (replacing Script.nextPersist l) Q E s := by
  apply WP.bind
  apply WP.ask hI.persist
  intro i hi
  cases ha : i.nextPersist.1 with
  | done => exact wp_perform hG hQ
  | failed => exact WP.throw (hfailed fun hd => by simpa [ha] using hd i hi)
  | late =>
    have hprompt : ¬ Prompt I := fun hp => hp i hi ha
    have hdone : ¬ PersistsDone I := fun hd => by simpa [ha] using hd i hi
    exact WP.bind (wp_perform hG (WP.throw (hlate hprompt hdone)))

theorem wp_replace_done {l : Write} {Q : Unit → World → Prop} (hG : G s l (l.apply s)) (hQ : Q () (l.apply s))
    (hE : ¬ WritesDone I → E .osError s ∧ E .osError (l.apply s)) : WP I G (replace l) Q E s := by
  apply WP.bind
  apply WP.ask hI.write
  intro i hi
  cases ha : i.nextWrite.1 with
  | done => exact wp_perform hG hQ
  | failed => exact WP.throw (hE fun hd => by simpa [ha] using hd i hi).1
  | late => exact WP.bind (wp_perform hG (WP.throw (hE fun hd => by simpa [ha] using hd i hi).2))

theorem wp_replace {l : Write} {Q : Unit → World → Prop} (hG : G s l (l.apply s)) (hQ : Q () (l.apply s))
    (hfailed : E .osError s) (hlate : E .osError (l.apply s)) : WP I G (replace l) Q E s :=
  wp_replace_done hI hG hQ fun _ => ⟨hfailed, hlate⟩

theorem wp_writeAdminAllowlistRaw {d : Daemon} {raw : Bytes} {owner : Option String} {Q : Unit → World → Prop}
    (hG : G s (.allowlist (some raw) owner) ((Write.allowlist (some raw) owner).apply s))
    (hQ : Q () ((Write.allowlist (some raw) owner).apply s))
    (hE : ∀ e, E e s ∧ E e ((Write.allowlist (some raw) owner).apply s)) :
    WP I G (d.writeAdminAllowlistRaw raw owner) Q E s :=
  WP.bind (wp_require (fun _ => wp_replace hI hG hQ (hE _).1 (hE _).2) fun _ => (hE _).1)

theorem wp_writeGeoipSelectionRaw {d : Daemon} {raw : Bytes} {owner : Option String} {Q : Unit → World → Prop}
    (hG : G s (.selection (some raw) owner) ((Write.selection (some raw) owner).apply s))
    (hQ : raw ≠ [] → Q () ((Write.selection (some raw) owner).apply s))
    (hE : ∀ e, E e s ∧ E e ((Write.selection (some raw) owner).apply s)) :
    WP I G (d.writeGeoipSelectionRaw raw owner) Q E s :=
  WP.bind (wp_require (fun h => wp_replace hI hG (hQ h.1) (hE _).1 (hE _).2) fun _ => (hE _).1)

theorem wp_readHost {Q : Host → World → Prop} (hQ : Q s.host s) (hE : ¬ ReadsDone I → E .osError s) :
    WP I G readHost Q E s := by
  apply WP.bind
  apply WP.ask hI.read
  intro i hi
  cases ha : i.nextRead.1 with
  | true => exact WP.bind (WP.get (WP.pure hQ))
  | false => exact WP.throw (hE fun hd => by simpa [ha] using hd i hi)

theorem wp_readClock {Q : Nat → World → Prop} (hG : ∀ now, G s (.clock now) ((Write.clock now).apply s))
    (hQ : ∀ now, Q now ((Write.clock now).apply s)) : WP I G readClock Q E s := by
  apply WP.bind
  apply WP.ask hI.time
  intro i hi
  exact WP.bind (wp_perform (hG _) (WP.pure (hQ _)))

theorem wp_loadConfigTransaction {Q : Option Transaction → World → Prop} (hQ : Q s.transaction s)
    (hE : ¬ ReadsDone I → E .osError s) : WP I G Daemon.loadConfigTransaction Q E s :=
  WP.bind (wp_readHost hI (WP.bind (WP.get (WP.pure hQ))) hE)

end Primitives

/-! ## The invariant -/

variable (d : Daemon)

/-- The rollback material is complete: it is what the captured host had. -/
structure Holds (t : Transaction) (req : BeginRequest) (cap : Host) : Prop where
  config : t.previousConfig = some cap.config
  sources : t.previousSources = some req.previous
  named : ∀ name content, req.previous.get? name = some content → cap.sources name = some content
  allowlist : ∀ a, t.allowlist = some a → cap.allowlist = a.before ∧
    ∃ entries raw, req.adminAllowlist = some entries ∧ d.allowlistRaw entries = some raw ∧
      a.candidateSha256 = d.sha256 raw
  allowlistAsked : t.allowlist = none → req.adminAllowlist = none
  geoip : ∀ g, t.geoip = some g → cap.selection = g.before ∧ cap.release = g.previousRelease ∧
    req.geoipSelection = some g.candidateSelection ∧
    ∀ f, g.candidateFingerprint = some f → d.selectionRaw g.candidateSelection ≠ [] ∧
      f.selectionSha256 = d.sha256 (d.selectionRaw g.candidateSelection)
  geoipAsked : t.geoip = none → req.geoipSelection = none

theorem Holds.allowlist_asked {d : Daemon} {t : Transaction} {req : BeginRequest} {cap : Host}
    (h : Holds d t req cap) (hn : t.allowlist ≠ none) : req.adminAllowlist ≠ none := by
  obtain ⟨a, ha⟩ := Option.ne_none_iff_exists'.mp hn
  obtain ⟨-, entries, raw, hentries, -⟩ := h.allowlist a ha
  rw [hentries]
  exact Option.some_ne_none entries

theorem Holds.geoip_asked {d : Daemon} {t : Transaction} {req : BeginRequest} {cap : Host}
    (h : Holds d t req cap) (hn : t.geoip ≠ none) : req.geoipSelection ≠ none := by
  obtain ⟨g, hg⟩ := Option.ne_none_iff_exists'.mp hn
  rw [(h.geoip g hg).2.2.1]
  exact Option.some_ne_none _

structure Untouched (h : Host) (req : BeginRequest) (cap : Host) : Prop where
  sources : ∀ name, req.previous.get? name = none → h.sources name = cap.sources name
  allowlist : req.adminAllowlist = none → h.allowlist = cap.allowlist
  geoip : req.geoipSelection = none → h.selection = cap.selection ∧ h.release = cap.release

/-- The rollback material is gone. -/
structure Dropped (t : Transaction) : Prop where
  config : t.previousConfig = none
  sources : t.previousSources = none
  allowlist : t.allowlist = none
  geoip : t.geoip = none

structure Candidate (w : World) (req : BeginRequest) : Prop where
  config : w.host.config = req.config
  sources : ∀ name content, req.candidate.get? name = some content → w.host.sources name = some content
  allowlist : ∀ entries, req.adminAllowlist = some entries → w.host.allowlist = d.allowlistRaw entries
  geoip : ∀ selection, req.geoipSelection = some selection →
    w.host.selection = some (d.selectionRaw selection) ∧
      ∃ release, w.releases w.host.release = some release ∧ release.serves selection

/-- Digests of the candidate, as the transaction keeps them. -/
structure Recorded (t : Transaction) (req : BeginRequest) : Prop where
  config : t.candidateSha256 = d.sha256 req.config
  sources : t.candidateSourceSha256 = req.candidate.mapValues fun _ content => d.sha256 content

/-- The transaction can be rolled back from here. -/
structure Ready (w : World) (t : Transaction) (req : BeginRequest) (cap : Host) : Prop where
  holds : Holds d t req cap
  untouched : w.edited = false → Untouched w.host req cap

def Promises (w : World) (t : Transaction) (req : BeginRequest) (cap : Host) : Prop :=
  match t.state with
  | .prepared => Ready d w t req cap
  | .pendingConfirmation => Ready d w t req cap ∧ (w.edited = false → Candidate d w req)
  | .rollingBack | .rollbackFailed => Ready d w t req cap ∨ Dropped t
  | .rolledBack => w.edited = false → w.host = cap
  | .confirmed => w.edited = false → Candidate d w req ∧ Untouched w.host req cap

def Inv (w : World) : Prop :=
  ∀ t, w.transaction = some t →
    ∃ req cap, w.begun = some (req, cap) ∧ Recorded d t req ∧ Promises d w t req cap

/-! ## Confirming -/

/-- The live files have the digests the transaction keeps. -/
structure Verified (s : World) (t : Transaction) : Prop where
  config : d.sha256 s.host.config = t.candidateSha256
  named : t.candidateSourceSha256.entries ≠ []
  sources : ∀ name sha, t.candidateSourceSha256.get? name = some sha →
    (s.host.sources name).map d.sha256 = some sha
  allowlist : ∀ a, t.allowlist = some a → s.host.allowlist.map d.sha256 = some a.candidateSha256
  geoip : ∀ g, t.geoip = some g → ∃ f release, g.candidateFingerprint = some f ∧
    f.selectionSha256 = d.sha256 (s.host.selection.getD []) ∧ f.release = s.host.release ∧
    s.releases s.host.release = some release ∧ release.serves g.candidateSelection ∧
    f.databaseSha256 = release.databaseSha256 ∧ f.allowedSha256 = release.allowedSha256

/-- What a confirmation needs: the id and the hash of a pending transaction, before its
deadline, with its candidate still live. -/
def Approves (op : Op) (s : World) (t : Transaction) : Prop :=
  ∃ id sha256, op = .confirm id sha256 ∧ id ≠ "" ∧ t.id = id ∧ t.candidateSha256 = sha256 ∧
    ∃ old, s.transaction = some old ∧ old.id = id ∧ old.candidateSha256 = sha256 ∧
      old.state = .pendingConfirmation ∧ s.clock < old.deadline ∧ Verified d s old

end EasyHaProxy.Controld
