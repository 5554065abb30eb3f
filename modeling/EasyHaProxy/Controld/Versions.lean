import EasyHaProxy.Controld.History
import EasyHaProxy.Lib.Decimal
import EasyHaProxy.Lib.Pieces
import Mathlib.Data.List.Chain

/-! What is left of the history beside the names: which sources are kept, and how they are read back. -/
namespace EasyHaProxy.Controld

/-- The versions as they were recorded, each later than the next. -/
def NewestFirst (history : List Version) : Prop := history.Pairwise fun v v' => v'.id.timestamp < v.id.timestamp

/-- A version has the digest of its files, and these are managed ones. -/
structure Version.Formed (d : Daemon) (v : Version) : Prop where
  generation : v.generation = d.generationOf v.files
  id : v.id.generation = String.ofList (v.generation.toList.take 12)
  files : (v.files.map (·.1)).Sublist sourceNames

/-- What holds of the history while the clock goes forward. -/
structure Kept (d : Daemon) (history : List Version) : Prop where
  newestFirst : NewestFirst history
  neighbours : (history.take configHistoryKeep).IsChain fun v v' => v.files ≠ v'.files
  formed : ∀ v ∈ history, v.Formed d

variable {d : Daemon} {w s s₀ s' : World} {history full kept : List Version} {v stale : Version} {op : Op} {l : Write}
  {late : Prop} {t : Transaction}
  {confirmed : List (String × List (SourceName × Bytes))}

theorem configHistoryEntries_eq (h : NewestFirst history) : Daemon.configHistoryEntries history = history :=
  List.mergeSort_of_pairwise (h.imp fun hlt => by simp [VersionId.le, hlt])

theorem id_ne_of_lt {v v' : Version} (h : v'.id.timestamp < v.id.timestamp) : v'.id ≠ v.id := by
  intro heq
  rw [heq] at h
  exact lt_irrefl _ h

theorem Kept.add (h : Kept d history) (hlater : ∀ v' ∈ history, v'.id.timestamp < v.id.timestamp) (hv : v.Formed d)
    (hdiffers : ∀ newest, history.head? = some newest → newest.generation ≠ v.generation) :
    Kept d (v :: history) where
  newestFirst := List.pairwise_cons.mpr ⟨hlater, h.newestFirst⟩
  neighbours := by
    have hrest := h.neighbours.take 49
    rw [List.take_take] at hrest
    refine List.isChain_cons.mpr ⟨fun newest hnewest hsame => ?_, hrest⟩
    have hhead : history.head? = some newest := by
      cases history with
      | nil => cases hnewest
      | cons v' history => exact hnewest
    refine hdiffers newest hhead ?_
    rw [(h.formed newest (List.mem_of_head? hhead)).generation, hv.generation, hsame]
  formed := List.forall_mem_cons.mpr ⟨hv, h.formed⟩

/-! ## What goes -/

theorem take_front {n : Nat} (hkept : kept.Sublist (full.drop n)) : (full.take n ++ kept).take n = full.take n := by
  by_cases hn : n ≤ full.length
  · exact List.take_left' (List.length_take_of_le hn)
  · rw [List.drop_eq_nil_of_le (by omega), List.sublist_nil] at hkept
    rw [hkept, List.append_nil, List.take_take, min_self]

theorem Kept.front (h : Kept d full) (hkept : kept.Sublist (full.drop configHistoryKeep)) :
    Kept d (full.take configHistoryKeep ++ kept) := by
  have hsub : (full.take configHistoryKeep ++ kept).Sublist full := by
    conv_rhs => rw [← List.take_append_drop configHistoryKeep full]
    exact hkept.append_left _
  exact ⟨h.newestFirst.sublist hsub, by rw [take_front hkept]; exact h.neighbours,
    fun v hv => h.formed v (hsub.subset hv)⟩

theorem filter_stale (h : NewestFirst full) (hstale : stale ∈ full.drop configHistoryKeep) :
    (full.take configHistoryKeep ++ kept).filter (fun v => v.id ≠ stale.id) =
      full.take configHistoryKeep ++ kept.filter fun v => v.id ≠ stale.id := by
  have hnewer : ∀ v ∈ full.take configHistoryKeep, stale.id ≠ v.id := by
    rw [NewestFirst, ← List.take_append_drop configHistoryKeep full, List.pairwise_append] at h
    exact fun v hv => id_ne_of_lt (h.2.2 v hv stale hstale)
  rw [List.filter_append, List.filter_eq_self.mpr fun v hv => decide_eq_true (hnewer v hv).symm]

/-- The sources on disk are the newest version, or were so before; where there are none, none is recorded. -/
def Archives (d : Daemon) (s s' : World) : Prop :=
  s.host.managed = [] ∧ s'.history = s.history ∨
    s.history.head?.map Version.generation = some (d.generationOf s.host.managed) ∧ s'.history = s.history ∨
    s.history.head?.map Version.generation ≠ some (d.generationOf s.host.managed) ∧
      ∃ v, v.files = s.host.managed ∧ s'.history = (v :: s.history).take configHistoryKeep

theorem persist_confirmed (h : t.state = .confirmed) :
    ((Write.persist t).apply s).confirmed = (t.id, s.host.managed) :: s.confirmed := if_pos h

/-- A candidate with digests of its sources is on disk. -/
theorem Verified.managed (hv : Verified d s t) : s.host.managed ≠ [] := by
  obtain ⟨⟨name, sha⟩, hmem⟩ := List.exists_mem_of_ne_nil _ hv.named
  obtain ⟨content, hcontent, -⟩ := Option.map_eq_some_iff.mp (hv.sources name sha (Dict.mem_entries.mp hmem))
  have hname : name ∈ sourceNames := by cases name <;> decide
  have hmanaged : (name, content) ∈ s.host.managed := List.mem_filterMap.mpr ⟨name, hname, by rw [hcontent]; rfl⟩
  exact List.ne_nil_of_mem hmanaged

section Programs

variable {I : Script → Prop} (hI : Closed I)

include hI

theorem wp_drops {E : Exc → World → Prop} (hfull : Kept d full) (hs : SameButHistory s₀ s) (hhistory : s.history = full) :
    WP I (fun _ _ s' => Kept d s'.history)
      (((Daemon.configHistoryEntries full).drop (max 1 configHistoryKeep)).forM fun stale => do
        let _ ← succeeds (replace (.dropVersion stale.id)))
      (fun _ s' => SameButHistory s₀ s' ∧ Kept d s'.history ∧
        (WritesDone I → s'.history = full.take configHistoryKeep)) E s := by
  rw [configHistoryEntries_eq hfull.newestFirst]
  -- beside the newest, some of the others are left: where all writes succeed, those that are ahead
  refine (WP.forM (J := fun rest s' => SameButHistory s₀ s' ∧
    ∃ kept, s'.history = full.take configHistoryKeep ++ kept ∧ kept.Sublist (full.drop configHistoryKeep) ∧
      (WritesDone I → kept = rest))
    ⟨hs, full.drop configHistoryKeep, by rw [hhistory, List.take_append_drop], .refl _, fun _ => rfl⟩ ?_).mono ?_
    fun _ _ he => he
  · rintro stale rest s' hsuf ⟨hsame, kept, hkeeps, hkept, hall⟩
    have hstale : stale ∈ full.drop configHistoryKeep := hsuf.subset List.mem_cons_self
    have hdropped : ((Write.dropVersion stale.id).apply s').history =
        full.take configHistoryKeep ++ kept.filter fun v => v.id ≠ stale.id := by
      rw [← filter_stale hfull.newestFirst hstale, ← hkeeps]
      rfl
    have hfewer : (kept.filter fun v => v.id ≠ stale.id).Sublist (full.drop configHistoryKeep) :=
      List.filter_sublist.trans hkept
    refine WP.bind (wp_succeeds (wp_replace_done hI (hdropped ▸ hfull.front hfewer)
      (WP.pure ⟨hsame.write trivial, _, hdropped, hfewer, fun hwrites => ?_⟩) fun hnot =>
        ⟨WP.pure ⟨hsame, kept, hkeeps, hkept, fun hwrites => absurd hwrites hnot⟩,
          WP.pure ⟨hsame.write trivial, _, hdropped, hfewer, fun hwrites => absurd hwrites hnot⟩⟩))
    have holder : ∀ v ∈ rest, v.id ≠ stale.id := by
      have hsorted := (hfull.newestFirst.sublist (List.drop_sublist _ _)).sublist hsuf.sublist
      exact fun v hv => id_ne_of_lt ((List.pairwise_cons.mp hsorted).1 v hv)
    rw [hall hwrites, List.filter_cons_of_neg (by simp)]
    exact List.filter_eq_self.mpr fun v hv => decide_eq_true (holder v hv)
  · rintro _ s' ⟨hsame, kept, hkeeps, hkept, hall⟩
    refine ⟨hsame, hkeeps ▸ hfull.front hkept, fun hwrites => ?_⟩
    rw [hkeeps, hall hwrites, List.append_nil]

theorem wp_recordVersion {E : Exc → World → Prop} (hs : Kept d s.history)
    (hlater : ∀ i, I i → ∀ v ∈ s.history, v.id.timestamp < i.nextTime.1) :
    WP I (fun _ _ s' => Kept d s'.history) (d.recordConfigVersion t)
      (fun _ s' => SameButHistory s s' ∧ Kept d s'.history ∧ (ReadsDone I → WritesDone I → Archives d s s')) E s := by
  refine WP.bind (wp_attempt ?_)
  refine WP.bind (wp_readCurrentConfigSources hI (fun files hnames hall₀ => ?_) fun hnot =>
    WP.pure ⟨.refl s, hs, fun hreads => absurd hreads hnot⟩)
  refine WP.ite (fun hempty => ?_) fun _ => ?_
  · exact WP.pure (WP.pure ⟨.refl s, hs, fun hreads _ => Or.inl ⟨hall₀ hreads ▸ hempty, rfl⟩⟩)
  refine WP.bind (WP.get ?_)
  dsimp only
  rw [configHistoryEntries_eq hs.newestFirst]
  refine WP.ite (fun hsame => ?_) fun hdiffers => ?_
  · exact WP.pure (WP.pure ⟨.refl s, hs, fun hreads _ => Or.inr (Or.inl ⟨hall₀ hreads ▸ hsame, rfl⟩)⟩)
  apply WP.bind
  apply WP.ask hI.time
  intro i hi
  have hnew : ∀ v ∈ s.history, v.id ≠ ⟨i.nextTime.1, String.ofList ((d.generationOf files).toList.take 12)⟩ :=
    fun v hv heq => lt_irrefl _ (heq ▸ hlater i hi v hv)
  refine WP.bind (wp_require (fun _ => ?_) fun htaken => absurd hnew htaken)
  have hkept {v : Version} (hv : v.Formed d) (htime : v.id.timestamp = i.nextTime.1) (hfiles : v.files = files) :
      Kept d (v :: s.history) :=
    hs.add (fun v' hv' => htime ▸ hlater i hi v' hv') hv fun newest hnewest hsame => by
      rw [hnewest] at hdiffers
      exact hdiffers (congrArg some (hsame.trans (hfiles ▸ hv.generation)))
  have hadded (v : Version) : SameButHistory s ((Write.addVersion v).apply s) := (SameButHistory.refl s).write trivial
  have hnow := @hkept
    ⟨⟨i.nextTime.1, String.ofList ((d.generationOf files).toList.take 12)⟩, d.generationOf files,
      s.history.head?.map Version.id, "", t.candidateSha256, files⟩ ⟨rfl, rfl, hnames⟩ rfl rfl
  refine WP.bind (wp_replace_done hI hnow ?_ fun hnot =>
    ⟨WP.pure ⟨.refl s, hs, fun _ hwrites => absurd hwrites hnot⟩,
      WP.pure ⟨hadded _, hnow, fun _ hwrites => absurd hwrites hnot⟩⟩)
  refine WP.bind (WP.get ?_)
  refine WP.bind ((wp_drops hI hnow (hadded _) rfl).mono ?_ fun _ _ he => he)
  rintro _ s' ⟨hsame, hkept', hall⟩
  refine WP.pure (WP.pure ⟨hsame, hkept', fun hreads hwrites => Or.inr (Or.inr ⟨?_, _, hall₀ hreads, hall hwrites⟩)⟩)
  rwa [← hall₀ hreads]

/-- A rollback leaves the history alone, whatever is raised after it. -/
theorem wp_rollBack_history {reason : String} {e : Exc} {Q : Transaction → World → Prop} (h : Inv d s)
    (ht : s.transaction = some t) (ha : t.state.active = true) :
    WP I (fun _ _ s' => s'.history = s.history ∧ s'.confirmed = s.confirmed)
      (do let _ ← d.rollBack t reason; Prog.throw e : M Transaction) Q
      (fun _ s' => s'.history = s.history ∧ s'.confirmed = s.confirmed) s := by
  have hrolled : WP I (Guarded d True .status) (do let _ ← d.rollBack t reason; Prog.throw e : M Transaction) (fun _ _ => False)
      (fun _ _ => True) s :=
    wp_rollBack_loaded hI (fun _ => trivial) h ht ha (fun _ _ _ _ _ => WP.throw trivial) fun _ _ _ _ => trivial
  exact (hrolled.keeping (K := fun s' => s'.history = s.history ∧ s'.confirmed = s.confirmed) ⟨rfl, rfl⟩
    fun _ _ _ hs hG => hG.same_history rfl hs).mono (fun _ _ hs => hs.1.elim) fun _ _ hs => hs.2

/-- Where nothing fails, a confirmation changes nothing or records what is confirmed. -/
def Confirms (d : Daemon) (s s' : World) : Prop :=
  s'.history = s.history ∧ s'.confirmed = s.confirmed ∨
    s.host.managed ≠ [] ∧ (∃ id, s'.confirmed = (id, s.host.managed) :: s.confirmed) ∧ Archives d s s'

theorem wp_confirm_versions {id sha256 : String} (h : Inv d s) (hs : Kept d s.history)
    (hlater : ∀ i, I i → ∀ v ∈ s.history, v.id.timestamp < i.nextTime.1) :
    WP I (fun _ _ s' => Kept d s'.history) (d.confirmConfigTransaction id sha256)
      (fun _ s' => ReadsDone I → PersistsDone I → WritesDone I → Confirms d s s')
      (fun _ s' => ReadsDone I → PersistsDone I → WritesDone I → Confirms d s s') s := by
  have hstay : ReadsDone I → PersistsDone I → WritesDone I → Confirms d s s := fun _ _ _ => Or.inl ⟨rfl, rfl⟩
  apply WP.bind
  apply WP.ask hI.lock
  intro i _
  refine WP.bind (wp_matchingTransaction hI (fun t ht _ _ => ?_) fun _ => hstay)
  refine WP.bind (wp_require (fun _ => ?_) fun _ => hstay)
  refine WP.ite (fun _ => WP.pure hstay) fun _ => ?_
  refine WP.bind (wp_require (fun hpending => ?_) fun _ => hstay)
  have hactive : t.state.active = true := by
    rw [hpending]
    rfl
  refine WP.bind (wp_readClock hI (fun now => hs) fun now => ?_)
  have hloaded : ((Write.clock now).apply s).transaction = some t := ht
  have hrolled (reason : String) (e : Exc) :
      WP I (fun _ _ s' => Kept d s'.history) (do let _ ← d.rollBack t reason; Prog.throw e : M Transaction)
        (fun _ s' => ReadsDone I → PersistsDone I → WritesDone I → Confirms d s s')
        (fun _ s' => ReadsDone I → PersistsDone I → WritesDone I → Confirms d s s') ((Write.clock now).apply s) :=
    ((wp_rollBack_history hI h.clock hloaded hactive).guarantee fun _ _ s' hs' => hs'.1 ▸ hs).mono (fun _ _ hs' => hs')
      fun _ _ hs' _ _ _ => Or.inl hs'
  refine WP.ite (fun _ => hrolled _ _) fun _ => ?_
  refine WP.bind (wp_attempt (wp_verifyLive hI (fun hv => ?_) fun _ => hrolled _ _))
  have hmanaged : s.host.managed ≠ [] := hv.managed
  refine WP.bind ((wp_recordVersion hI (s := (Write.clock now).apply s) hs hlater).mono ?_ fun _ _ he => he)
  rintro version s₁ ⟨hsame, hkept, harchives⟩
  refine WP.bind (wp_persist hI hkept (WP.pure fun hreads _ hwrites => Or.inr ⟨hmanaged, ⟨t.id, ?_⟩, harchives hreads hwrites⟩)
    (fun hnot _ hpersists _ => absurd hpersists hnot) fun _ hnot _ hpersists _ => absurd hpersists hnot)
  have hhost : s₁.host = s.host := hsame.host
  have hconfirmed : s₁.confirmed = s.confirmed := hsame.confirmed
  rw [← hhost, ← hconfirmed]
  exact persist_confirmed rfl

end Programs

/-! ## Runs -/

def Script.Past (moment : Nat) (i : Script) : Prop := (∀ time ∈ i.times, moment < time) ∧ moment < i.restTime

/-- A version is recorded, if at all, later than those that are there. -/
def Move.Forward (w : World) : Move → Prop
  | .run op script _ => op.confirms = true → ∀ v ∈ w.history, script.Past v.id.timestamp
  | .edit .. => True

/-- A confirmation runs to its end, and nothing it reads or writes fails. -/
def Move.Orderly : Move → Prop
  | .run op script cut => op.confirms = true → cut = none ∧ script.Steady ∧ ∀ r ∈ script.writes, r = .done
  | .edit .. => True

theorem Script.Past.nextTime {moment : Nat} {i : Script} (h : i.Past moment) : moment < i.nextTime.1 := by
  unfold Script.nextTime
  cases ht : i.times with
  | nil => exact h.2
  | cons time rest => exact h.1 time (by simp [ht])

theorem closed_past {moments : List Nat} : Closed fun i => ∀ moment ∈ moments, i.Past moment where
  lock _ hi := hi
  read _ hi := hi
  persist _ hi := hi
  write _ hi := hi
  check _ hi := hi
  reload _ hi := hi
  probe _ hi := hi
  update _ hi := hi
  time _ hi moment hm := ⟨fun time ht => (hi moment hm).1 time (List.mem_of_mem_tail ht), (hi moment hm).2⟩
  token _ hi := hi

theorem closed_orderly {moments : List Nat} : Closed fun i =>
    i.Steady ∧ (∀ r ∈ i.writes, r = .done) ∧ ∀ moment ∈ moments, i.Past moment where
  lock i hi := ⟨closed_steady.lock i hi.1, hi.2⟩
  read i hi := ⟨closed_steady.read i hi.1, hi.2⟩
  persist i hi := ⟨closed_steady.persist i hi.1, hi.2⟩
  write i hi := ⟨closed_steady.write i hi.1, fun r hr => hi.2.1 r (List.mem_of_mem_tail hr), hi.2.2⟩
  check i hi := ⟨closed_steady.check i hi.1, hi.2⟩
  reload i hi := ⟨closed_steady.reload i hi.1, hi.2⟩
  probe i hi := ⟨closed_steady.probe i hi.1, hi.2⟩
  update i hi := ⟨closed_steady.update i hi.1, hi.2⟩
  time i hi := ⟨closed_steady.time i hi.1, hi.2.1, closed_past.time i hi.2.2⟩
  token i hi := ⟨closed_steady.token i hi.1, hi.2⟩

theorem wp_program_versions {I : Script → Prop} (hI : Closed I) (hop : op.confirms = true) (h : Inv d s)
    (hs : Kept d s.history) (hpast : ∀ i, I i → ∀ moment ∈ s.history.map (·.id.timestamp), i.Past moment) :
    WP I (fun _ _ s' => Kept d s'.history) (op.program d)
      (fun _ s' => ReadsDone I → PersistsDone I → WritesDone I → Confirms d s s')
      (fun _ s' => ReadsDone I → PersistsDone I → WritesDone I → Confirms d s s') s := by
  cases op with
  | confirm id sha256 =>
    exact WP.bind ((wp_confirm_versions hI h hs fun i hi v hv =>
      (hpast i hi _ (List.mem_map_of_mem hv)).nextTime).mono (fun _ _ hs' => WP.pure hs') fun _ _ hs' => hs')
  | _ => cases hop

theorem ends_same {σ ε α : Type} {P : σ → Prop} {r : Except ε α} {s : σ} (h : Ends (fun _ => P) (fun _ => P) r s) : P s := by
  cases r <;> exact h

theorem kept_step {m : Move} (h : Inv d w) (hk : Kept d w.history) (hm : m.Forward w) : Kept d (step d w m).history := by
  cases m with
  | edit host releases => exact hk
  | run op script cut =>
    by_cases hop : op.confirms = true
    · have hscript : ∀ moment ∈ w.history.map (·.id.timestamp), script.Past moment := by
        simpa using hm hop
      have hall : Steps (fun _ _ s' => Kept d s'.history) w (op.program d script w).log :=
        (wp_program_versions closed_past hop h hk (fun i hi => hi) script hscript).2.1
      have hcut : Steps (fun _ _ s' => Kept d s'.history) w (Move.log d w (.run op script cut)) := by
        cases cut with
        | none => exact hall
        | some n => exact hall.suffix (List.drop_suffix _ _)
      exact hcut.keeps hk fun _ _ _ _ hs' => hs'
    · rw [(step_same_history h (Bool.eq_false_of_not_eq_true hop)).1]
      exact hk

theorem confirms_step {m : Move} (h : Inv d w) (hk : Kept d w.history) (hm : m.Forward w) (ho : m.Orderly) :
    Confirms d w (step d w m) := by
  cases m with
  | edit host releases => exact Or.inl ⟨rfl, rfl⟩
  | run op script cut =>
    by_cases hop : op.confirms = true
    · obtain ⟨rfl, hsteady, hwrites⟩ := ho hop
      have hscript : ∀ moment ∈ w.history.map (·.id.timestamp), script.Past moment := by
        simpa using hm hop
      have hend := (wp_program_versions closed_orderly hop h hk (fun i hi => hi.2.2) script
        ⟨hsteady, hwrites, hscript⟩).2.2
      refine ends_same hend (fun i hi => steady_done.2 i hi.1) (fun i hi => steady_done.1 i hi.1) fun i hi => ?_
      unfold Script.nextWrite
      cases hw : i.writes with
      | nil => rfl
      | cons r rest => exact hi.2.1 r (by simp [hw])
    · exact Or.inl (step_same_history h (Bool.eq_false_of_not_eq_true hop))

/-! ## Reading a version -/

theorem toList_text (v : VersionId) : v.text.toList = Nat.toDigits 10 v.timestamp ++ '.' :: v.generation.toList := by
  simp only [VersionId.text, String.toList_append, Text.toList_toString, List.append_assoc]
  rfl

theorem timestamp_of_text {v v' : VersionId} (h : v.text = v'.text) : v.timestamp = v'.timestamp := by
  have hdigits (v : VersionId) : v.text.toList.takeWhile Char.isDigit = Nat.toDigits 10 v.timestamp := by
    rw [toList_text, List.takeWhile_append_of_pos fun _ hc => Text.isDigit_of_mem_toDigits hc,
      List.takeWhile_cons_of_neg (by decide), List.append_nil]
  have hsame : Nat.toDigits 10 v.timestamp = Nat.toDigits 10 v'.timestamp := by rw [← hdigits, h, hdigits]
  have hread := congrArg (Nat.ofDigitChars 10 · 0) hsame
  rwa [Nat.ofDigitChars_ten_toDigits, Nat.ofDigitChars_ten_toDigits] at hread

theorem strip_text {v : VersionId} (hgen : ∀ c ∈ v.generation.toList, Text.isSpace c = false) :
    String.ofList (Text.strip v.text.toList) = v.text := by
  have hall : ∀ c ∈ v.text.toList, Text.isSpace c = false := by
    rw [toList_text]
    intro c hc
    rcases List.mem_append.mp hc with hc | hc
    · exact Text.isSpace_of_isDigit (Text.isDigit_of_mem_toDigits hc)
    · rcases List.mem_cons.mp hc with rfl | hc
      · decide
      · exact hgen c hc
  rw [Text.strip_eq_self (fun c hc => hall c (List.mem_of_head? hc)) fun c hc => hall c (List.mem_of_getLast? hc),
    String.ofList_toList]

/-- Files of some names, in the order of these, are found again by them. -/
theorem filterMap_lookup {κ β : Type} [DecidableEq κ] {names : List κ} {files : List (κ × β)} (hn : names.Nodup)
    (h : (files.map (·.1)).Sublist names) :
    (names.filterMap fun name => (files.lookup name).map fun content => (name, content)) = files := by
  induction names generalizing files with
  | nil =>
    rw [List.sublist_nil, List.map_eq_nil_iff] at h
    rw [h]
    rfl
  | cons name names ih =>
    obtain ⟨hname, hrest⟩ := List.nodup_cons.mp hn
    cases files with
    | nil => simp
    | cons file files =>
      obtain ⟨key, content⟩ := file
      rcases List.cons_sublist_cons'.mp h with hsub | ⟨hkey, hsub⟩
      · have hne : name ≠ key := by
          rintro rfl
          exact hname (hsub.subset List.mem_cons_self)
        have hnone : ((key, content) :: files).lookup name = none := by
          rw [List.lookup_eq_none_iff]
          rintro ⟨other, _⟩ hmem
          refine bne_iff_ne.mpr fun heq => hname (hsub.subset ?_)
          exact heq ▸ List.mem_map_of_mem (f := Prod.fst) hmem
        rw [List.filterMap_cons, hnone]
        exact ih hrest hsub
      · obtain rfl : key = name := hkey
        rw [List.filterMap_cons, List.lookup_cons_self]
        refine congrArg ((key, content) :: ·) ?_
        refine (List.filterMap_congr fun other hother => ?_).trans (ih hrest hsub)
        have hne : other ≠ key := by
          rintro rfl
          exact hname hother
        rw [List.lookup_cons, beq_eq_false_iff_ne.mpr hne]

theorem Kept.returned (h : Kept d history) (hhex : ∀ bytes, ∀ c ∈ (d.sha256 bytes).toList, Text.isSpace c = false)
    (hv : v ∈ history) : Daemon.getConfigVersion history v.id.text = some v.files := by
  have hform := h.formed v hv
  have hgen : ∀ c ∈ v.id.generation.toList, Text.isSpace c = false := by
    rw [hform.id, String.toList_ofList, hform.generation]
    exact fun c hc => hhex _ c (List.mem_of_mem_take hc)
  have hne : v.id.text ≠ "" := by
    intro hempty
    have hlist := congrArg String.toList hempty
    rw [toList_text] at hlist
    simp at hlist
  have hfind : history.find? (fun v' => v.id.text ≠ "" && v'.id.text = v.id.text) = some v := by
    obtain ⟨v', hv'⟩ : ∃ v', history.find? (fun v' => v.id.text ≠ "" && v'.id.text = v.id.text) = some v' :=
      Option.isSome_iff_exists.mp (List.find?_isSome.mpr ⟨v, hv, by simp [hne]⟩)
    have htime : v'.id.timestamp = v.id.timestamp :=
      timestamp_of_text (by simpa [hne] using List.find?_some hv')
    have hdistinct : (history.map (·.id.timestamp)).Nodup :=
      List.pairwise_map.mpr (h.newestFirst.imp fun hlt => hlt.ne')
    rw [hv', List.inj_on_of_nodup_map hdistinct (List.mem_of_find?_eq_some hv') hv htime]
  unfold Daemon.getConfigVersion
  rw [strip_text hgen, configHistoryEntries_eq h.newestFirst]
  dsimp only
  rw [hfind]
  exact congrArg some (filterMap_lookup (by decide) hform.files)

/-! ## All runs -/

theorem kept_run {moves : List Move} (hw : Fresh w) (hm : Machine.Along (step d) (fun w m => m.Forward w) w moves) :
    Kept d (Machine.run (step d) w moves).history := by
  have hkept : Kept d w.history := by
    rw [hw.history]
    exact ⟨.nil, .nil, fun v hv => absurd hv List.not_mem_nil⟩
  exact (hm.keeps (I := fun w => Inv d w ∧ Kept d w.history) ⟨hw.inv, hkept⟩
    fun w m hw hm => ⟨step_inv hw.1, kept_step hw.1 hw.2 hm⟩).2

/-- In every run, whatever fails or is cut short, while the clock goes forward: the newest fifty versions
differ from their neighbours, and each version is returned byte for byte. -/
theorem versions_kept {moves : List Move} (hw : Fresh w)
    (hm : Machine.Along (step d) (fun w m => m.Forward w) w moves)
    (hhex : ∀ bytes, ∀ c ∈ (d.sha256 bytes).toList, Text.isSpace c = false) :
    ((Daemon.configHistoryEntries (Machine.run (step d) w moves).history).take configHistoryKeep).IsChain
        (fun v v' => v.files ≠ v'.files) ∧
      ∀ v ∈ (Machine.run (step d) w moves).history,
        Daemon.getConfigVersion (Machine.run (step d) w moves).history v.id.text = some v.files := by
  have hkept := kept_run hw hm
  rw [configHistoryEntries_eq hkept.newestFirst]
  exact ⟨hkept.neighbours, fun v hv => hkept.returned hhex hv⟩

theorem distinctVersions_cons (id : String) (files : List (SourceName × Bytes)) :
    (distinctVersions ((id, files) :: confirmed)).map (·.2) =
      if confirmed.head?.map (·.2) = some files then (distinctVersions confirmed).map (·.2)
      else files :: (distinctVersions confirmed).map (·.2) := by
  cases confirmed with
  | nil => rfl
  | cons e rest =>
    rw [distinctVersions, List.head?_cons, Option.map_some]
    by_cases hsame : files = e.2
    · rw [if_pos hsame, if_pos (congrArg some hsame.symm)]
    · rw [if_neg hsame, if_neg fun heq => hsame (Option.some.inj heq).symm, List.map_cons]

theorem head_distinctVersions : ((distinctVersions confirmed).map (·.2)).head? = confirmed.head?.map (·.2) := by
  induction confirmed with
  | nil => rfl
  | cons e rest ih =>
    rw [distinctVersions_cons]
    split
    next hsame => rw [ih, hsame, List.head?_cons, Option.map_some]
    · rfl

theorem Confirms.confirmed_subset (hc : Confirms d s s') : s.confirmed ⊆ s'.confirmed := by
  rcases hc with ⟨-, hsame⟩ | ⟨-, ⟨id, hmore⟩, -⟩
  · rw [hsame]
    exact List.Subset.refl _
  · rw [hmore]
    exact List.subset_cons_self _ _

theorem Confirms.files (hc : Confirms d s s') (hk : Kept d s.history)
    (hfiles : s.history.map Version.files = ((distinctVersions s.confirmed).map (·.2)).take configHistoryKeep)
    (hsha : ∀ e ∈ s'.confirmed, ∀ e' ∈ s'.confirmed, d.generationOf e.2 = d.generationOf e'.2 → e.2 = e'.2) :
    s'.history.map Version.files = ((distinctVersions s'.confirmed).map (·.2)).take configHistoryKeep := by
  have hnewest : s.history.head?.map Version.files = s.confirmed.head?.map (·.2) := by
    rw [← head_distinctVersions, ← List.head?_map, hfiles, List.head?_take]
    rfl
  have hgeneration : s.history.head?.map Version.generation = (s.confirmed.head?.map (·.2)).map d.generationOf := by
    rw [← hnewest]
    cases hh : s.history.head? with
    | none => rfl
    | some v => exact congrArg some (hk.formed v (List.mem_of_head? hh)).generation
  rcases hc with ⟨hhistory, hconfirmed⟩ | ⟨hmanaged, ⟨id, hconfirmed⟩, harchives⟩
  · rw [hhistory, hconfirmed, hfiles]
  rw [hconfirmed] at hsha
  rw [hconfirmed, distinctVersions_cons]
  rcases harchives with ⟨hnone, -⟩ | ⟨hsame, hhistory⟩ | ⟨hdiffers, v, hv, hhistory⟩
  · exact absurd hnone hmanaged
  · rw [hgeneration] at hsame
    obtain ⟨files, hlast, hdigest⟩ := Option.map_eq_some_iff.mp hsame
    obtain ⟨e, he, rfl⟩ := Option.map_eq_some_iff.mp hlast
    have heq : e.2 = s.host.managed :=
      hsha e (List.mem_cons_of_mem _ (List.mem_of_head? he)) _ List.mem_cons_self hdigest
    rw [if_pos (hlast.trans (congrArg some heq)), hhistory, hfiles]
  · have hother : s.confirmed.head?.map (·.2) ≠ some s.host.managed := by
      intro hlast
      rw [hgeneration, hlast] at hdiffers
      exact hdiffers rfl
    rw [if_neg hother, hhistory, List.map_take, List.map_cons, hv, hfiles, configHistoryKeep, List.take_succ_cons,
      List.take_succ_cons, List.take_take]
    rfl

/-- In every run whose confirmations are orderly, while the clock goes forward: the history holds the fifty
last sets of sources that were confirmed and differ from the one before. -/
theorem orderly_history {moves : List Move} (hw : Fresh w)
    (hm : Machine.Along (step d) (fun w m => m.Forward w) w moves) (horderly : ∀ m ∈ moves, m.Orderly)
    (hsha : ∀ e ∈ (Machine.run (step d) w moves).confirmed, ∀ e' ∈ (Machine.run (step d) w moves).confirmed,
      d.generationOf e.2 = d.generationOf e'.2 → e.2 = e'.2) :
    (Daemon.configHistoryEntries (Machine.run (step d) w moves).history).map Version.files =
      ((distinctVersions (Machine.run (step d) w moves).confirmed).map (·.2)).take configHistoryKeep := by
  rw [configHistoryEntries_eq (kept_run hw hm).newestFirst]
  induction moves using List.reverseRecOn with
  | nil => rw [Machine.run_nil, hw.history, hw.confirmed]; rfl
  | append_singleton moves m ih =>
    obtain ⟨hmoves, hforward, -⟩ := Machine.along_append.mp hm
    rw [Machine.run_append, Machine.run_cons, Machine.run_nil] at hsha ⊢
    have hkept := kept_run hw hmoves
    have hconfirms := confirms_step (run_inv hw.inv) hkept hforward (horderly m (by simp))
    have hmore := hconfirms.confirmed_subset
    exact hconfirms.files hkept (ih hmoves (fun m' hm' => horderly m' (by simp [hm']))
      fun e he e' he' => hsha e (hmore he) e' (hmore he')) hsha

example : (Machine.run (step plainDaemon) plainWorld confirmedMoves).history.map Version.files = [[(.vars, [3])]] := by
  decide +kernel

end EasyHaProxy.Controld
