import EasyHaProxy.Backupd.RefusedSaves

/-! `save_schedule` stores the passphrase as bytes, `run_scheduled_backup` reads it back and hands it to
`start_backup`. Inspecting and restoring an archive are given it by the operator. -/
namespace EasyHaProxy.Backupd.Settings

open Yaml Validate

variable {host : Host} {s s' t : Store} {request asked : Fields} {p : String} {content l : Chars}

/-! ## The run and what it starts -/

/-- `path.read_text(encoding="utf-8")`, with every line end as a line feed. -/
def readText (content : ByteArray) : Except Failure Chars :=
  expect ((String.fromUTF8? content).map fun s => Text.newlines s.toList) .malformed

/-- What `run_scheduled_backup` asks of `start_backup`; nothing where the run is skipped. -/
def scheduledRequest (host : Host) (s : Store) (onDemand : Bool) : Except Failure (Option Fields) := do
  let schedule ← loadSchedule host s
  if schedule.enabled = false ∧ onDemand = false then return none
  require (onDemand = true → schedule.destinations ≠ [])
    (invalid "choose at least one destination before running it")
  let stored ← expect s.passphrase (invalid "no stored passphrase")
  let content ← readText stored
  return some [("action", .str "start_backup"), ("passphrase", text (Text.strip content)),
    ("include_ssh", .bool schedule.includeSsh), ("quiesce", .bool schedule.quiesce)]

/-- `require_bool`. -/
def requireBool (v : Option Value) (label : String) : Except Failure Bool :=
  match v with
  | some (.bool b) => .ok b
  | _ => .error (invalid (label ++ " must be true or false"))

/-- A start checks the passphrase after some things and before others, and gives it to its worker. -/
def startWith (before after : Except Failure Unit) (request : Fields) : Except Failure Chars := do
  before
  let passphrase ← requirePassphrase (request.lookup "passphrase")
  after
  return passphrase

/-- `start_backup`; `lock` is what `acquire_operation` says. -/
def startBackup (lock : Except Failure Unit) (request : Fields) : Except Failure Chars :=
  startWith (.ok ()) (do
    let _ ← requireBool (request.lookup "include_ssh") "include_ssh"
    let _ ← requireBool (request.lookup "quiesce") "quiesce"
    lock) request

/-- `start_inspect`, with what it says of the upload's id and, later, of the upload. -/
def startInspect (identifier upload : Except Failure Unit) (request : Fields) : Except Failure Chars :=
  startWith identifier upload request

/-- `start_restore`, with what it says of the ids and, later, of the scope and the inspection. -/
def startRestore (identifiers inspection : Except Failure Unit) (request : Fields) : Except Failure Chars :=
  startWith identifiers inspection request

/-- The archive is made with `p`, and `p` is what an inspection or a restore given it works with. -/
structure OpensWith (p : String) (asked : Fields) : Prop where
  handed : asked.lookup "passphrase" = some (.str p)
  accepted : startBackup (.ok ()) asked = .ok p.toList
  inspected : ∀ request, request.lookup "passphrase" = some (.str p) →
    startInspect (.ok ()) (.ok ()) request = startBackup (.ok ()) asked
  restored : ∀ request, request.lookup "passphrase" = some (.str p) →
    startRestore (.ok ()) (.ok ()) request = startBackup (.ok ()) asked

/-- There is no white space at either end. -/
def PlainEnds (l : Chars) : Prop :=
  (∀ c, l.head? = some c → Text.isSpace c = false) ∧ ∀ c, l.getLast? = some c → Text.isSpace c = false

/-! ## There and back -/

theorem strip_eq_iff : Text.strip l = l ↔ PlainEnds l := by
  constructor
  · exact fun h => ⟨fun c => Text.head_of_strip_eq h, fun c => Text.last_of_strip_eq h⟩
  · exact fun h => Text.strip_eq_self h.1 h.2

theorem requirePassphrase_str (h : requirePassphrase (some (.str p)) = .ok content) :
    content = p.toList ∧ '\r' ∉ p.toList := by
  unfold requirePassphrase at h
  simp only at h
  split at h
  · cases h
  · split at h
    · cases h
    next hplain =>
      simp only [not_or] at hplain
      exact ⟨(Except.ok.inj h).symm, hplain.2.2.2⟩

theorem readText_encode (h : '\r' ∉ l) : readText (encode l) = .ok l := by
  have hback : String.fromUTF8? (encode l) = some (String.ofList l) := by
    unfold String.fromUTF8? encode
    rw [dif_pos (String.ofList l).isValidUTF8]
    rfl
  rw [readText, hback, Option.map_some, String.toList_ofList, Text.newlines_eq_self.mpr h]
  rfl

theorem passphrase_of_saved {schedule : Schedule}
    (hsaved : saveSchedule host s request = (.ok schedule, s')) :
    ∃ written, passphraseAfter s request = .ok written ∧ s'.passphrase = written.passphrase := by
  unfold saveSchedule at hsaved
  split at hsaved
  · cases hsaved
  · split at hsaved
    · cases hsaved
    · split at hsaved
      · cases hsaved
      next written hwritten =>
        refine ⟨written, hwritten, ?_⟩
        split at hsaved
        · cases hsaved
        · split at hsaved
          · simp only at hsaved
            split at hsaved
            · rw [← (Prod.mk.inj hsaved).2]
            · rw [← (Prod.mk.inj hsaved).2]
              rfl
          · cases hsaved

theorem stored_of_saved {schedule : Schedule}
    (haccepted : requirePassphrase (some (.str p)) = .ok content)
    (hrequest : request.lookup "passphrase" = some (.str p))
    (hsaved : saveSchedule host s request = (.ok schedule, s')) :
    s'.passphrase = some (encode p.toList) := by
  obtain ⟨written, hw, hp⟩ := passphrase_of_saved hsaved
  have hne : p ≠ "" := by
    rintro rfl
    cases haccepted
  unfold passphraseAfter at hw
  rw [hrequest] at hw
  simp only [if_neg hne, haccepted] at hw
  rw [hp, ← Except.ok.inj hw, (requirePassphrase_str haccepted).1]

/-- What a run hands on is the stored text without the white space at its ends. -/
theorem handed_of_stored (hstored : t.passphrase = some (encode l)) (hplain : '\r' ∉ l) {onDemand : Bool}
    (hrun : scheduledRequest host t onDemand = .ok (some asked)) :
    ∃ includeSsh quiesce, asked = [("action", .str "start_backup"), ("passphrase", text (Text.strip l)),
      ("include_ssh", .bool includeSsh), ("quiesce", .bool quiesce)] := by
  unfold scheduledRequest at hrun
  obtain ⟨schedule, -, hrun⟩ := bind_eq_ok.mp hrun
  split at hrun
  · cases hrun
  · obtain ⟨_, -, hrun⟩ := bind_eq_ok.mp hrun
    rw [hstored] at hrun
    obtain ⟨stored, hs, hrun⟩ := bind_eq_ok.mp hrun
    cases hs
    obtain ⟨read, hread, hrun⟩ := bind_eq_ok.mp hrun
    obtain rfl : l = read := Except.ok.inj ((readText_encode hplain).symm.trans hread)
    cases hrun
    exact ⟨_, _, rfl⟩

theorem startWith_ok {passphrase : Option Value} (h : request.lookup "passphrase" = passphrase) :
    startWith (.ok ()) (.ok ()) request = requirePassphrase passphrase := by
  rw [← h, startWith]
  change (requirePassphrase (request.lookup "passphrase") >>= _) = _
  cases requirePassphrase (request.lookup "passphrase") with
  | error e => rfl
  | ok content => rfl

/-- A scheduled archive opens with the passphrase that was stored exactly when that has no white
space at its ends. -/
theorem opensWith_iff {schedule : Schedule} {onDemand : Bool}
    (haccepted : requirePassphrase (some (.str p)) = .ok content)
    (hrequest : request.lookup "passphrase" = some (.str p))
    (hsaved : saveSchedule host s request = (.ok schedule, s')) (hlater : t.passphrase = s'.passphrase)
    (hrun : scheduledRequest host t onDemand = .ok (some asked)) :
    OpensWith p asked ↔ PlainEnds p.toList := by
  obtain ⟨hcontent, hplain⟩ := requirePassphrase_str haccepted
  have hstored := hlater.trans (stored_of_saved haccepted hrequest hsaved)
  obtain ⟨includeSsh, quiesce, rfl⟩ := handed_of_stored hstored hplain hrun
  rw [← strip_eq_iff]
  constructor
  · intro h
    have hsame : String.ofList (Text.strip p.toList) = p := Value.str.inj (Option.some.inj h.handed)
    rw [← hsame, String.toList_ofList, Text.strip_strip]
  · intro h
    have hstart : startBackup (.ok ()) [("action", .str "start_backup"), ("passphrase", text (Text.strip p.toList)),
        ("include_ssh", .bool includeSsh), ("quiesce", .bool quiesce)] = .ok p.toList := by
      rw [h, text, String.ofList_toList]
      refine (startWith_ok rfl).trans ?_
      change requirePassphrase (some (.str p)) = _
      rw [haccepted, hcontent]
    have hgiven (given : Fields) (hg : given.lookup "passphrase" = some (.str p)) :
        startWith (.ok ()) (.ok ()) given = .ok p.toList := by
      rw [startWith_ok hg, haccepted, hcontent]
    refine ⟨?_, hstart, fun given hg => (hgiven given hg).trans hstart.symm,
      fun given hg => (hgiven given hg).trans hstart.symm⟩
    rw [h, text, String.ofList_toList]
    rfl

theorem scheduledRequest_of_stored {schedule : Schedule} (hload : loadSchedule host t = .ok schedule)
    (hon : schedule.enabled = true) (hstored : t.passphrase = some (encode l)) (hplain : '\r' ∉ l) :
    scheduledRequest host t false = .ok (some [("action", .str "start_backup"),
      ("passphrase", text (Text.strip l)), ("include_ssh", .bool schedule.includeSsh),
      ("quiesce", .bool schedule.quiesce)]) := by
  unfold scheduledRequest
  rw [hload]
  change (if schedule.enabled = false ∧ false = false then _ else _) = _
  rw [if_neg (by rw [hon]; decide), hstored]
  change (readText (encode l) >>= _) = _
  rw [readText_encode hplain]
  rfl

theorem armed_runs (p : String) (hp : requirePassphrase (some (.str p)) = .ok p.toList)
    (hsaves : ∃ schedule s', saveSchedule offline armed [("passphrase", .str p)] = (.ok schedule, s') ∧
      loadSchedule offline s' = .ok schedule ∧ schedule.enabled = true) :
    ∃ schedule s' asked, saveSchedule offline armed [("passphrase", .str p)] = (.ok schedule, s') ∧
      scheduledRequest offline s' false = .ok (some asked) ∧
      asked.lookup "passphrase" = some (text (Text.strip p.toList)) := by
  obtain ⟨schedule, s', hsaved, hload, hon⟩ := hsaves
  exact ⟨schedule, s', _, hsaved,
    scheduledRequest_of_stored hload hon (stored_of_saved hp rfl hsaved) (requirePassphrase_str hp).2, rfl⟩

def spaced : String := "correct horse "

/-- It is stored, and the next run makes its archive with another one. -/
theorem spaced_not_handed : ∃ schedule s' asked,
    saveSchedule offline armed [("passphrase", .str spaced)] = (.ok schedule, s') ∧
      scheduledRequest offline s' false = .ok (some asked) ∧ ¬ OpensWith spaced asked := by
  obtain ⟨schedule, s', asked, hsaved, hrun, hhanded⟩ := armed_runs spaced rfl ⟨_, _, rfl, rfl, rfl⟩
  refine ⟨schedule, s', asked, hsaved, hrun, fun h => ?_⟩
  have hsame : String.ofList (Text.strip spaced.toList) = spaced :=
    Value.str.inj (Option.some.inj (hhanded.symm.trans h.handed))
  exact absurd hsame (by decide)

theorem opensWith_armed : ∃ schedule s' asked,
    saveSchedule offline armed [("passphrase", .str "correct horse")] = (.ok schedule, s') ∧
      scheduledRequest offline s' false = .ok (some asked) ∧ OpensWith "correct horse" asked := by
  obtain ⟨schedule, s', asked, hsaved, hrun, -⟩ := armed_runs "correct horse" rfl ⟨_, _, rfl, rfl, rfl⟩
  refine ⟨schedule, s', asked, hsaved, hrun, ?_⟩
  refine (opensWith_iff rfl rfl hsaved rfl hrun).mpr ⟨?_, ?_⟩
  · intro c hc
    cases hc
    rfl
  · intro c hc
    cases hc
    rfl

end EasyHaProxy.Backupd.Settings
