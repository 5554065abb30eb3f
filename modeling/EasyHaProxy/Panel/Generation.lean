import EasyHaProxy.Lib.Base64
import EasyHaProxy.Lib.Text

/-! Every rendered configuration inserts a hash of the sources it was rendered from into requests for the
admin host. The panel confirms a pending candidate only for a request that carries the candidate's own. -/
namespace EasyHaProxy.Panel

/-- The three managed source files, byte for byte. -/
structure Bundle where
  vars : List Byte
  websites : List Byte
  tcp : List Byte
  deriving DecidableEq

def generationPrefix : List Char := "easy-ha-proxy-config-generation-v1|".toList

/-- `name:base64` of each file in order, joined by bars. -/
def Bundle.framed (b : Bundle) : List Char :=
  generationPrefix ++ ("vars.yml:".toList ++ Base64.encode b.vars) ++ '|' ::
    ("websites.yml:".toList ++ Base64.encode b.websites) ++ '|' ::
    ("tcp.yml:".toList ++ Base64.encode b.tcp)

def hexDigits : List Char := "0123456789abcdef".toList

/-- `[0-9a-f]{64}`. -/
def isGeneration (text : List Char) : Bool := text.length = 64 && text.all (· ∈ hexDigits)

def isIdChar (c : Char) : Bool :=
  'A' ≤ c && c ≤ 'Z' || 'a' ≤ c && c ≤ 'z' || '0' ≤ c && c ≤ '9' || c == '_' || c == '-'

/-- `[A-Za-z0-9_-]{16,128}`. -/
def isTransactionId (text : List Char) : Bool :=
  16 ≤ text.length && text.length ≤ 128 && text.all isIdChar

/-- `hashlib.sha256(..).hexdigest()`. -/
structure Sha256 where
  hexdigest : List Char → List Char
  isGeneration_hexdigest : ∀ message, isGeneration (hexdigest message) = true

/-- `config_source_generation`. -/
def Sha256.generation (sha : Sha256) (b : Bundle) : List Char := sha.hexdigest b.framed

/-- The private marker of a pending transaction. -/
structure Marker where
  transactionId : List Char
  configGeneration : List Char
  deriving DecidableEq

/-- What controld answers to `begin-config-transaction`. -/
structure BeginAnswer where
  ok : Bool
  pending : Bool
  transactionId : List Char

/-- `_write_pending_transaction_marker`: without an id there is nothing to mark. -/
def writePendingTransactionMarker (answer : BeginAnswer) (generation : List Char)
    (marker : Option Marker) : Option Marker :=
  let id := Text.strip answer.transactionId
  if id = [] then marker else some ⟨id, Text.lower (Text.strip generation)⟩

/-- `begin_cfg_confirmation`, as far as the marker goes. `accepted` says that the candidate
passed `haproxy -c`, names exactly one admin domain and has a proven baseline, or that the
external drift was confirmed; `render` is the template. Nothing is asked of controld unless
the candidate is the render of the sources that are on disk. -/
def beginCfgConfirmation (sha : Sha256) (render : Bundle → List Char → List Char) (accepted : Bool)
    (sources : Bundle) (cfgText : List Char) (answer : BeginAnswer) (marker : Option Marker) :
    Bool × Option Marker :=
  if accepted && render sources (sha.generation sources) = cfgText && answer.ok && answer.pending then
    (true, writePendingTransactionMarker answer (sha.generation sources) marker)
  else (false, marker)

/-- `candidate_request_reachable`. -/
def candidateRequestReachable (marker : Option Marker) (transactionId generation : List Char) :
    Bool :=
  let cleanId := Text.strip transactionId
  let generation := Text.lower (Text.strip generation)
  isTransactionId cleanId && isGeneration generation &&
    match marker with
    | none => false
    | some marker =>
      let markerGeneration := Text.lower (Text.strip marker.configGeneration)
      isGeneration markerGeneration && Text.strip marker.transactionId = cleanId &&
        markerGeneration = generation

/-- A configuration HAProxy runs: its text, and the header its generation rule inserts, which is
whatever the text has there. -/
structure LiveConfig where
  text : List Char
  header : List Char

/-- The rule as the template renders it. Editing the text beside it, or rendering by another
template, leaves the header as it is. -/
def LiveConfig.rendered (sha : Sha256) (text : List Char) (sources : Bundle) : LiveConfig :=
  ⟨text, sha.generation sources⟩

/-- A request served through the candidate confirms the transaction, and none served through
the live configuration does. -/
def ProvesCandidate (marker : Option Marker) (transactionId : List Char) (live candidate : LiveConfig) : Prop :=
  candidateRequestReachable marker transactionId live.header = false ∧
    candidateRequestReachable marker transactionId candidate.header = true

/-! ## Framing -/

theorem append_bar_inj {a b x y : List Char} (ha : '|' ∉ a) (hb : '|' ∉ b)
    (h : a ++ '|' :: x = b ++ '|' :: y) : a = b ∧ x = y := by
  induction a generalizing b with
  | nil =>
    cases b with
    | nil => exact ⟨rfl, (List.cons.inj h).2⟩
    | cons c b => exact absurd ((List.cons.inj h).1 ▸ List.mem_cons_self) hb
  | cons c a ih =>
    cases b with
    | nil => exact absurd ((List.cons.inj h).1 ▸ List.mem_cons_self) ha
    | cons d b =>
      obtain ⟨rfl, hrest⟩ := List.cons.inj h
      obtain ⟨rfl, rfl⟩ := ih (fun hm => ha (List.mem_cons_of_mem _ hm))
        (fun hm => hb (List.mem_cons_of_mem _ hm)) hrest
      exact ⟨rfl, rfl⟩

theorem bar_not_mem_field {name : List Char} (h : '|' ∉ name) (bytes : List Byte) :
    '|' ∉ name ++ Base64.encode bytes := by
  simp [h, Base64.bar_not_mem_encode]

theorem Bundle.framed_injective : Function.Injective Bundle.framed := by
  intro a b h
  simp only [framed, List.append_assoc, List.cons_append] at h
  have h := List.append_cancel_left h
  simp only [← List.append_assoc] at h
  obtain ⟨hvars, h⟩ := append_bar_inj (bar_not_mem_field (by decide) _)
    (bar_not_mem_field (by decide) _) h
  obtain ⟨hwebsites, htcp⟩ := append_bar_inj (bar_not_mem_field (by decide) _)
    (bar_not_mem_field (by decide) _) h
  obtain ⟨v, w, t⟩ := a
  obtain ⟨v', w', t'⟩ := b
  have hv : v = v' := Base64.encode_injective (List.append_cancel_left hvars)
  have hw : w = w' := Base64.encode_injective (List.append_cancel_left hwebsites)
  have ht : t = t' := Base64.encode_injective (List.append_cancel_left htcp)
  rw [hv, hw, ht]

/-! ## Hexadecimal digits survive the clean-up -/

theorem isSpace_of_hexDigit {c : Char} (h : c ∈ hexDigits) : Text.isSpace c = false := by
  have hall : hexDigits.all (fun d => !Text.isSpace d) = true := by decide
  simpa using List.all_eq_true.mp hall c h

theorem strip_of_isGeneration {text : List Char} (h : isGeneration text = true) :
    Text.strip text = text := by
  have hall : ∀ c ∈ text, Text.isSpace c = false := by
    intro c hc
    simp only [isGeneration, Bool.and_eq_true, List.all_eq_true, decide_eq_true_eq] at h
    exact isSpace_of_hexDigit (h.2 c hc)
  unfold Text.strip Text.trim
  rw [List.dropWhile_eq_self_iff.mpr fun hl => by simp [hall _ (List.getElem_mem hl)],
    List.rdropWhile_eq_self_iff.mpr fun hl => by simp [hall _ (List.getLast_mem hl)]]

theorem lower_of_isGeneration {text : List Char} (h : isGeneration text = true) :
    Text.lower text = text := by
  have hall : hexDigits.all (fun c => (if c = '\u212a' then 'k' else c.toLower) == c) = true := by
    decide
  have hdigit : ∀ c ∈ hexDigits, (if c = '\u212a' then 'k' else c.toLower) = c := fun c hc =>
    beq_iff_eq.mp (List.all_eq_true.mp hall c hc)
  simp only [isGeneration, Bool.and_eq_true, List.all_eq_true, decide_eq_true_eq] at h
  unfold Text.lower
  rw [List.map_congr_left fun c hc => hdigit c (h.2 c hc)]
  exact List.map_id text

/-! ## Confirming -/

variable {sha : Sha256} {render : Bundle → List Char → List Char} {accepted : Bool}
  {sources : Bundle} {cfgText : List Char} {answer : BeginAnswer} {marker marked : Option Marker}

theorem marked_of_begin
    (h : beginCfgConfirmation sha render accepted sources cfgText answer marker = (true, marked))
    (hid : isTransactionId (Text.strip answer.transactionId) = true) :
    marked = some ⟨Text.strip answer.transactionId, sha.generation sources⟩ := by
  have hgen : isGeneration (sha.generation sources) = true := sha.isGeneration_hexdigest _
  unfold beginCfgConfirmation at h
  split at h
  · have hne : Text.strip answer.transactionId ≠ [] := by
      intro hnil
      rw [hnil] at hid
      cases hid
    rw [writePendingTransactionMarker, if_neg hne, strip_of_isGeneration hgen,
      lower_of_isGeneration hgen] at h
    exact (Prod.ext_iff.mp h).2.symm
  · cases h

theorem cleaned_generation (b : Bundle) : Text.lower (Text.strip (sha.generation b)) = sha.generation b := by
  have hgen : isGeneration (sha.generation b) = true := sha.isGeneration_hexdigest _
  rw [strip_of_isGeneration hgen, lower_of_isGeneration hgen]

theorem reachable_iff (hid : isTransactionId (Text.strip answer.transactionId) = true)
    (header : List Char) :
    candidateRequestReachable (some ⟨Text.strip answer.transactionId, sha.generation sources⟩)
      answer.transactionId header = true ↔ Text.lower (Text.strip header) = sha.generation sources := by
  have hgen : isGeneration (sha.generation sources) = true := sha.isGeneration_hexdigest _
  simp only [candidateRequestReachable, cleaned_generation, Text.strip_strip, hid, hgen, Bool.true_and,
    decide_true, Bool.and_eq_true, decide_eq_true_eq]
  exact ⟨fun h => h.2.symm, fun h => ⟨h ▸ hgen, h.symm⟩⟩

/-- Confirming proves that the candidate was reached exactly when the header of the live
configuration is not the candidate's: for one that was rendered, when the two were rendered
from different sources. -/
theorem confirm_proves_candidate_iff (sha : Sha256) (render : Bundle → List Char → List Char)
    (accepted : Bool) (live : LiveConfig) (sources : Bundle) (cfgText : List Char)
    (answer : BeginAnswer) (marker marked : Option Marker)
    (hbegin : beginCfgConfirmation sha render accepted sources cfgText answer marker = (true, marked))
    (hid : isTransactionId (Text.strip answer.transactionId) = true) :
    (ProvesCandidate marked answer.transactionId live (.rendered sha cfgText sources) ↔
      Text.lower (Text.strip live.header) ≠ sha.generation sources) ∧
    ∀ text b, live = .rendered sha text b →
      (sha.hexdigest sources.framed = sha.hexdigest b.framed → sources.framed = b.framed) →
      (ProvesCandidate marked answer.transactionId live (.rendered sha cfgText sources) ↔ b ≠ sources) := by
  have hiff : ProvesCandidate marked answer.transactionId live (.rendered sha cfgText sources) ↔
      Text.lower (Text.strip live.header) ≠ sha.generation sources := by
    rw [marked_of_begin hbegin hid, ProvesCandidate, ← Bool.not_eq_true, reachable_iff hid]
    exact and_iff_left ((reachable_iff hid _).mpr (cleaned_generation sources))
  refine ⟨hiff, ?_⟩
  rintro text b rfl hsha
  rw [hiff, LiveConfig.rendered, cleaned_generation, ne_eq, ne_eq, not_iff_not]
  constructor
  · exact fun hsame => (Bundle.framed_injective (hsha hsame.symm)).symm
  · rintro rfl
    rfl

def asciiBytes (text : String) : List Byte := text.toList.map fun c => Base64.byte c.toNat

/-- Sources with an admin domain and nothing else, and with a line end more. -/
def adminSources : Bundle := ⟨asciiBytes "admin_domain: a.example.com", [], []⟩

def endedSources : Bundle := ⟨asciiBytes "admin_domain: a.example.com\n", [], []⟩

def knownSha256 : Sha256 where
  hexdigest message :=
    if message = adminSources.framed then
      "73611d8202b56c76903e329d6143bc7982c0d661e58f27257f4cbc9996ae55ef".toList
    else if message = endedSources.framed then
      "58d536a51e86ca929ae108baf4b775a7e9dc0b9a9517a86237b1aa4881936daa".toList
    else "0000000000000000000000000000000000000000000000000000000000000000".toList
  isGeneration_hexdigest message := by split_ifs <;> decide

/-- A template that writes the generation and nothing more. -/
def bareTemplate (_ : Bundle) (generation : List Char) : List Char := generation

def begunAnswer : BeginAnswer := ⟨true, true, "0123456789abcdefghijklmnopqrstuv".toList⟩

theorem confirm_proves_candidate_iff_ended :
    ProvesCandidate (some ⟨begunAnswer.transactionId, knownSha256.generation endedSources⟩)
      begunAnswer.transactionId (.rendered knownSha256 (knownSha256.generation adminSources) adminSources)
      (.rendered knownSha256 (knownSha256.generation endedSources) endedSources) ↔
      adminSources ≠ endedSources :=
  (confirm_proves_candidate_iff knownSha256 bareTemplate true
    (.rendered knownSha256 (knownSha256.generation adminSources) adminSources) endedSources
    (knownSha256.generation endedSources) begunAnswer none _ (by decide +kernel) (by decide +kernel)).2 _ _ rfl
    (fun h => absurd h (by decide +kernel))

/-- The live text is the candidate's with a comment an outsider added; the sources on disk
are the ones both were rendered from. -/
theorem drifted_request_confirms : ¬ ∀ (sha : Sha256) (render : Bundle → List Char → List Char)
    (text : List Char) (b sources : Bundle) (cfgText : List Char) (answer : BeginAnswer)
    (marked : Option Marker), text ≠ cfgText →
    beginCfgConfirmation sha render true sources cfgText answer none = (true, marked) →
      candidateRequestReachable marked answer.transactionId (LiveConfig.rendered sha text b).header = false := by
  intro h
  have hno := h knownSha256 bareTemplate (knownSha256.generation adminSources ++ " # edited".toList) adminSources
    adminSources (knownSha256.generation adminSources) begunAnswer _ (by decide +kernel) rfl
  revert hno
  decide +kernel

end EasyHaProxy.Panel
