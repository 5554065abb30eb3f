import EasyHaProxy.Certs.Deliver
import Mathlib.Data.List.Nodup

/-! A target has to list one of the renewed names as it stands, and each of its names has to be covered by
the certificate. TLS clients ask the second alone. -/
namespace EasyHaProxy.Certs

variable (py : Interpreter)

/-! ## Names as TLS clients read them -/

/-- A name without case and without the dot of the root. -/
def canonical (name : String) : String := rstrip '.' (normal py name)

/-- A name of the certificate stands for a name: it is the name, or a wildcard in place of its first label. -/
def StandsFor (entry name : List Char) : Prop :=
  entry = name ∨ ∃ label rest, label ≠ [] ∧ '.' ∉ label ∧ entry = '*' :: '.' :: rest ∧ name = label ++ '.' :: rest

def ValidFor (cert : List String) (name : String) : Prop :=
  ∃ entry ∈ cert, StandsFor (py.lower entry).toList (canonical py name).toList

def IsName (name : String) : Prop := ∀ label ∈ (canonical py name).toList.splitOn '.', label ≠ []

/-- `str.lower` on what it has lowered. -/
structure Lowers : Prop where
  empty : py.lower "" = ""
  again : ∀ name, normal py (normal py name) = normal py name

def Literal (cert names : List String) : Prop := ∃ name ∈ names, normal py name ∈ cert.map (normal py)

/-! ## What a delivery needs besides the names -/

/-- The record, the files and the programs are in order, and openssl lists the names of the certificate. -/
structure Ready (record : Record) (lineage : Lineage) (b : Behaviour) (cert : List String) : Prop where
  enabled : enabled py record = true
  complete : lacks py record b = none
  buildable : Buildable py record lineage
  writes : b.writes = true
  transport : transports.contains (transportOf py record) = true
  runs : ∃ workdir, b.workdir = some workdir ∧ Converts py record lineage b workdir ∧
    (transfer py record b workdir).ExitsZero
  listed : ∃ held, certificateNames py lineage b = .ok held ∧ ∀ name, name ∈ held ↔ ∃ entry ∈ cert, py.lower entry = name

def Sent (files : List (String × Option Json)) (lineage : Lineage) (domains : List String)
    (behave : String → Behaviour) (record : Record) : Prop :=
  ∃ file, (record.name, file) ∈ (deliverAll py files lineage domains behave).left

variable {py} {record : Record} {lineage : Lineage} {b : Behaviour} {cert names held domains : List String}
  {name entry : String} {files : List (String × Option Json)} {behave : String → Behaviour}

/-! ## Covered names -/

theorem dropWhile_label {label rest : List Char} (h : '.' ∉ label) :
    (label ++ '.' :: rest).dropWhile (· ≠ '.') = '.' :: rest := by
  induction label with
  | nil => rfl
  | cons c label ih =>
    rw [List.mem_cons, not_or] at h
    rw [List.cons_append, List.dropWhile_cons_of_pos (by simpa using Ne.symm h.1), ih h.2]

theorem split_first_dot {l : List Char} (h : '.' ∈ l) :
    ∃ label rest, '.' ∉ label ∧ l = label ++ '.' :: rest ∧ (l.dropWhile (· ≠ '.')).drop 1 = rest := by
  obtain ⟨label, rest, rfl, hlabel⟩ := List.eq_append_cons_of_mem h
  exact ⟨label, rest, hlabel, rfl, by rw [dropWhile_label hlabel, List.drop_one, List.tail_cons]⟩

theorem IsName.first_label (h : IsName py name) {label rest : List Char}
    (hsplit : (canonical py name).toList = label ++ '.' :: rest) : label ≠ [] := by
  rintro rfl
  refine h [] ?_ rfl
  rw [hsplit, List.splitOn_append_cons_self_of_not_mem List.not_mem_nil]
  exact List.mem_cons_self

/-- The cover check reads a wildcard as TLS clients do. -/
theorem nameCovered_iff (hlowers : Lowers py) (hname : IsName py name) :
    nameCovered py (normal py name) held = true ↔
      ∃ entry ∈ held, StandsFor entry.toList (canonical py name).toList := by
  unfold nameCovered
  dsimp only
  rw [hlowers.again, ← canonical, List.any_eq_true]
  refine exists_congr fun entry => and_congr_right fun _ => ?_
  rw [Bool.or_eq_true, beq_iff_eq, Bool.and_eq_true, Bool.and_eq_true, List.isPrefixOf_iff_prefix, List.contains_iff_mem,
    beq_iff_eq]
  refine or_congr (String.toList_inj).symm ?_
  constructor
  · rintro ⟨⟨⟨rest, hentry⟩, hdot⟩, hrest⟩
    obtain ⟨label, rest', hlabel, hsplit, hdrop⟩ := split_first_dot hdot
    refine ⟨label, rest', hname.first_label hsplit, hlabel, ?_, hsplit⟩
    rw [← hentry, ← hdrop, hrest, ← hentry]
    rfl
  · rintro ⟨label, rest, -, hlabel, hentry, hsplit⟩
    refine ⟨⟨⟨rest, by rw [hentry]; rfl⟩, by rw [hsplit]; simp⟩, ?_⟩
    rw [hsplit, hentry, dropWhile_label hlabel]
    rfl

theorem nameCovered_iff_validFor (hlowers : Lowers py) (hname : IsName py name)
    (hheld : ∀ name, name ∈ held ↔ ∃ entry ∈ cert, py.lower entry = name) :
    nameCovered py (normal py name) held = true ↔ ValidFor py cert name := by
  rw [nameCovered_iff hlowers hname, ValidFor]
  constructor
  · rintro ⟨_, hmem, hstands⟩
    obtain ⟨entry, hentry, rfl⟩ := (hheld _).mp hmem
    exact ⟨entry, hentry, hstands⟩
  · rintro ⟨entry, hentry, hstands⟩
    exact ⟨py.lower entry, (hheld _).mpr ⟨entry, hentry, rfl⟩, hstands⟩

theorem IsName.not_blank (hlowers : Lowers py) (h : IsName py name) : strip name ≠ "" ∧ normal py name ≠ "" := by
  have hblank : normal py name ≠ "" := by
    intro hempty
    refine h [] ?_ rfl
    rw [canonical, hempty]
    decide
  refine ⟨fun hstrip => hblank ?_, hblank⟩
  rw [normal, hstrip, hlowers.empty]

/-! ## What is sent -/

theorem wants_iff (hlowers : Lowers py) (hitems : domainItems py record = .ok names)
    (hnames : ∀ name ∈ names, IsName py name) : wants py cert record = true ↔ Literal py cert names := by
  unfold wants wantsDomain Literal
  rw [hitems]
  change (names.any _ = true) ↔ _
  rw [List.any_eq_true]
  refine exists_congr fun name => and_congr_right fun hmem => ?_
  have hne := ((hnames name hmem).not_blank hlowers).2
  simp [hne]

theorem uncoveredNames_nil_iff (hlowers : Lowers py) (hitems : domainItems py record = .ok names)
    (hnames : ∀ name ∈ names, IsName py name) (hlisted : certificateNames py lineage b = .ok held)
    (hheld : ∀ name, name ∈ held ↔ ∃ entry ∈ cert, py.lower entry = name) :
    ∃ missing, uncoveredNames py record lineage b = .ok missing ∧
      (missing = [] ↔ ∀ name ∈ names, ValidFor py cert name) := by
  unfold uncoveredNames
  rw [hlisted, hitems]
  refine ⟨_, rfl, ?_⟩
  rw [List.filter_eq_nil_iff]
  constructor
  · intro h name hmem
    have hkept : normal py name ∈ (names.filter fun d => strip d != "").map (normal py) := by
      refine List.mem_map.mpr ⟨name, List.mem_filter.mpr ⟨hmem, ?_⟩, rfl⟩
      simpa using ((hnames name hmem).not_blank hlowers).1
    rw [← nameCovered_iff_validFor hlowers (hnames name hmem) hheld]
    simpa using h _ hkept
  · intro h lowered hmem
    obtain ⟨name, hkept, rfl⟩ := List.mem_map.mp hmem
    have hin := (List.mem_filter.mp hkept).1
    simpa using (nameCovered_iff_validFor hlowers (hnames name hin) hheld).mpr (h name hin)

theorem artefactNames_ne_nil : artefactNames py record ≠ [] := by
  unfold artefactNames
  dsimp only
  split
  · exact List.cons_ne_nil _ _
  · split <;> exact List.cons_ne_nil _ _

/-- A transfer that is through leaves a file. -/
theorem send_left {artefacts : List Artefact} {workdir : String} {landed : List (String × Bytes)}
    (hnames : artefacts.map (fun a => (a.file, a.remote)) = artefactNames py record)
    (h : send py record b workdir artefacts = .ok landed) : landed ≠ [] := by
  have hne : artefacts ≠ [] := by
    rintro rfl
    exact artefactNames_ne_nil hnames.symm
  unfold send at h
  split at h
  · cases h
  · split at h
    · cases h
    · split at h
      · cases h
      · rw [← Except.ok.inj h, ne_eq, List.map_eq_nil_iff]
        exact hne

/-- Where all is in order a delivery leaves files on the far side. -/
theorem Ready.deliverFiles_left (h : Ready py record lineage b cert) :
    (deliverFiles py record lineage b).left ≠ [] := by
  obtain ⟨workdir, hworkdir, hconverts, hzero⟩ := h.runs
  unfold deliverFiles
  rw [hworkdir]
  dsimp only
  rcases buildArtefacts_cases with ⟨hnot, -⟩ | ⟨-, hnot, -⟩ |
    ⟨-, -, -, ⟨hwrites, -⟩ | ⟨-, artefacts, hbuild, hnames⟩⟩
  · exact absurd h.buildable hnot
  · exact absurd hconverts hnot
  · rw [h.writes] at hwrites
    cases hwrites
  · rw [hbuild]
    change (recover record (send py record b workdir artefacts) _).left ≠ []
    rcases send_cases hnames with ⟨hnot, -⟩ | ⟨-, hnot, -⟩ | ⟨-, -, -, landed, hsend⟩
    · rw [h.transport] at hnot
      cases hnot
    · exact absurd hzero hnot
    · rw [hsend]
      exact send_left hnames hsend

theorem Ready.deliver_left_iff (h : Ready py record lineage b cert) (hlowers : Lowers py)
    (hitems : domainItems py record = .ok names) (hnames : ∀ name ∈ names, IsName py name) :
    (deliver py record lineage b).left ≠ [] ↔ ∀ name ∈ names, ValidFor py cert name := by
  obtain ⟨held, hlisted, hheld⟩ := h.listed
  obtain ⟨missing, hmissing, hnil⟩ := uncoveredNames_nil_iff hlowers hitems hnames hlisted hheld
  unfold deliver
  rw [h.enabled, h.complete, hmissing, ← hnil]
  cases missing with
  | nil => exact iff_of_true h.deliverFiles_left rfl
  | cons name rest => exact iff_of_false (fun hleft => hleft rfl) (List.cons_ne_nil name rest)

theorem targets_names : ((targets files).map Record.name).Sublist (files.map Prod.fst) := by
  induction files with
  | nil => exact List.Sublist.refl _
  | cons file files ih =>
    obtain ⟨stem, content⟩ := file
    rw [targets, List.filterMap_cons, List.map_cons]
    split
    · exact ih.cons stem
    next record hrecord =>
      have hname : record.name = stem := by
        dsimp only at hrecord
        split at hrecord
        · rw [← Option.some.inj hrecord]
        · cases hrecord
      rw [List.map_cons, hname]
      exact ih.cons_cons stem

theorem mem_attempt_left (hitems : Iterable py record) {received : String × String × Bytes}
    (h : received ∈ (attempt py lineage domains behave record).left) :
    wants py domains record = true ∧
      ∃ file ∈ (deliver py record lineage (behave record.name)).left, (record.name, file) = received := by
  cases hwants : wants py domains record with
  | true =>
    rw [attempt_left hitems hwants] at h
    exact ⟨rfl, List.mem_map.mp h⟩
  | false =>
    unfold attempt at h
    rw [wantsDomain_eq hitems, hwants] at h
    cases h

/-- What the loop leaves with a target is what the target's own delivery leaves. -/
theorem mem_deliverAll_left (hall : Unharmed py files lineage domains behave)
    (hdirectory : (files.map Prod.fst).Nodup) (hrecord : record ∈ targets files) {file : String × Bytes} :
    (record.name, file) ∈ (deliverAll py files lineage domains behave).left ↔
      wants py domains record = true ∧ file ∈ (deliver py record lineage (behave record.name)).left := by
  obtain ⟨hfiles, hrecords⟩ := hall
  obtain ⟨results, hended, hresults, hleft⟩ := Attempt.each_of_returns
    fun record hrecord => attempt_returns_iff.mpr (hrecords record hrecord)
  unfold deliverAll
  rw [listDestinations_eq hfiles]
  dsimp only
  rw [hleft, List.mem_flatMap]
  constructor
  · rintro ⟨other, hother, hmem⟩
    obtain ⟨hwants, received, hreceived, heq⟩ := mem_attempt_left (hrecords other hother).1 hmem
    obtain ⟨hname, rfl⟩ := Prod.mk.inj heq
    have hnames : ((targets files).map Record.name).Nodup := hdirectory.sublist targets_names
    obtain rfl : other = record := List.inj_on_of_nodup_map hnames hother hrecord hname
    exact ⟨hwants, hreceived⟩
  · rintro ⟨hwants, hfile⟩
    refine ⟨record, hrecord, ?_⟩
    rw [attempt_left (hrecords record hrecord).1 hwants]
    exact List.mem_map.mpr ⟨file, hfile, rfl⟩

theorem sent_iff (hall : Unharmed py files lineage cert behave) (hdirectory : (files.map Prod.fst).Nodup)
    (hrecord : record ∈ targets files) (hready : Ready py record lineage (behave record.name) cert)
    (hlowers : Lowers py) (hitems : domainItems py record = .ok names) (hnames : ∀ name ∈ names, IsName py name) :
    Sent py files lineage cert behave record ↔
      Literal py cert names ∧ ∀ name ∈ names, ValidFor py cert name := by
  unfold Sent
  rw [← wants_iff hlowers hitems hnames, ← hready.deliver_left_iff hlowers hitems hnames]
  simp only [mem_deliverAll_left hall hdirectory hrecord]
  rw [exists_and_left]
  refine and_congr_right fun _ => ⟨?_, List.exists_mem_of_ne_nil _⟩
  rintro ⟨file, hfile⟩
  exact List.ne_nil_of_mem hfile

/-- A target gets the renewed certificate exactly when it covers the target's names, unless it covers
them without holding one of them as it stands. -/
theorem sent_iff_valid_iff (hall : Unharmed py files lineage cert behave) (hdirectory : (files.map Prod.fst).Nodup)
    (hrecord : record ∈ targets files) (hready : Ready py record lineage (behave record.name) cert)
    (hlowers : Lowers py) (hitems : domainItems py record = .ok names) (hnames : ∀ name ∈ names, IsName py name) :
    (Sent py files lineage cert behave record ↔ ∀ name ∈ names, ValidFor py cert name) ↔
      ((∀ name ∈ names, ValidFor py cert name) → Literal py cert names) := by
  rw [sent_iff hall hdirectory hrecord hready hlowers hitems hnames]
  tauto

/-! ## One target of an application, and programs that do what they are asked -/

/-- Names that are in lower case already. -/
def lowerCase : Interpreter := ⟨id, fun _ => "", fun _ => true⟩

theorem lowers_lowerCase : Lowers lowerCase := by
  refine ⟨rfl, fun name => ?_⟩
  simp [normal, lowerCase, strip, Text.strip_strip]

def appRecord : Record where
  name := "app"
  fields := [("domains", .arr [.str "app.example.com"]), ("host", .str "app.lan"), ("user", .str "deploy"),
    ("format", .str "pem-combined"), ("remote_path", .str "/etc/ssl/app.pem")]

def appFiles : List (String × Option Json) := [("app", some (.obj appRecord.fields))]

def appLineage : Lineage := ⟨"/etc/letsencrypt/live/example.com", "example.com", some [], some []⟩

/-- Every program ends well; openssl lists one name. -/
def obliging (listed : String) : Behaviour :=
  ⟨true, true, some "/tmp/w", true, [], fun _ => .exited 0 ("DNS:" ++ listed) ""⟩

theorem unharmed_app (listed : String) (cert : List String) :
    Unharmed lowerCase appFiles appLineage cert fun _ => obliging listed := by
  have hexits (call : Call) : (obliging listed).run call = .exited 0 ("DNS:" ++ listed) "" := rfl
  refine ⟨by simp [appFiles, HoldsObject], fun record hrecord => ?_⟩
  obtain rfl : record = appRecord := by simpa [targets, appFiles, appRecord] using hrecord
  refine ⟨trivial, fun _ _ _ => ⟨fun text => ?_, fun _ => ⟨"/tmp/w", rfl, fun _ => ?_⟩⟩⟩
  · rw [hexits]
    intro h
    cases h
  refine ⟨fun _ => ?_, fun _ => ⟨rfl, fun _ => ⟨?_, fun _ _ => ?_⟩⟩⟩
  · rw [pkcs12, hexits]
    exact id
  · rw [transfer, hexits]
    exact id
  · rw [hexits]
    exact trivial

theorem ready_app {listed : String}
    (hlisted : certificateNames lowerCase appLineage (obliging listed) = .ok [listed]) :
    Ready lowerCase appRecord appLineage (obliging listed) [listed] where
  enabled := by decide
  complete := by rfl
  buildable := ⟨rfl, rfl, by decide +kernel, by decide +kernel⟩
  writes := rfl
  transport := by decide +kernel
  runs := ⟨"/tmp/w", rfl, fun _ => rfl, rfl⟩
  listed := ⟨[listed], hlisted, fun name => by simp [lowerCase, eq_comm]⟩

theorem isName_app : ∀ name ∈ ["app.example.com"], IsName lowerCase name := by
  intro name hname
  rw [List.mem_singleton.mp hname]
  unfold IsName
  decide +kernel

/-- The wildcard covers the target's one name, and the target is passed over. -/
theorem wildcard_passed_over :
    Ready lowerCase appRecord appLineage (obliging "*.example.com") ["*.example.com"] ∧
    ¬ (Sent lowerCase appFiles appLineage ["*.example.com"] (fun _ => obliging "*.example.com") appRecord ↔
      ∀ name ∈ ["app.example.com"], ValidFor lowerCase ["*.example.com"] name) := by
  refine ⟨ready_app (by rfl), fun h => ?_⟩
  have hvalid : ∀ name ∈ ["app.example.com"], ValidFor lowerCase ["*.example.com"] name := by
    intro name hname
    rw [List.mem_singleton.mp hname]
    refine ⟨"*.example.com", List.mem_cons_self, Or.inr ⟨"app".toList, "example.com".toList, ?_⟩⟩
    decide +kernel
  obtain ⟨file, hfile⟩ := h.mpr hvalid
  have hnone : wants lowerCase ["*.example.com"] appRecord = false := by decide +kernel
  have hwants := ((mem_deliverAll_left (unharmed_app _ _) (by simp [appFiles])
    (by simp [targets, appFiles, appRecord])).mp hfile).1
  rw [hnone] at hwants
  cases hwants

/-- A target that lists the name the certificate holds gets it. -/
theorem sent_iff_valid_iff_app :
    (Sent lowerCase appFiles appLineage ["app.example.com"] (fun _ => obliging "app.example.com") appRecord ↔
      ∀ name ∈ ["app.example.com"], ValidFor lowerCase ["app.example.com"] name) ↔
    ((∀ name ∈ ["app.example.com"], ValidFor lowerCase ["app.example.com"] name) →
      Literal lowerCase ["app.example.com"] ["app.example.com"]) :=
  sent_iff_valid_iff (unharmed_app _ _) (by simp [appFiles]) (by simp [targets, appFiles, appRecord])
    (ready_app (by rfl)) lowers_lowerCase (by rfl) isName_app

end EasyHaProxy.Certs
