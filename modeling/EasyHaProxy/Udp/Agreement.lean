import EasyHaProxy.Udp.Saves
import Mathlib

/-! Every file the panel writes holds entries it normalized itself, their enabled ranges apart. The loader
takes such a file as long as no enabled entry names an IPv6 address or an address with a zone. -/
namespace EasyHaProxy.Udp

open EasyHaProxy.Yaml EasyHaProxy.Text EasyHaProxy.Validate EasyHaProxy.Machine
open Guardd (isIPv4 isIPv6)

/-! ## A stored range is read again -/

section Ranges

variable {n m : Nat} {r : PortRange}

theorem isPort_toDigits (h : n ≤ 65535) : isPort (Nat.toDigits 10 n) = true := by
  have hlen : (Nat.toDigits 10 n).length ≤ 5 :=
    (Nat.length_toDigits_le_iff (by decide) (by decide)).mpr (by omega)
  rw [isPort, decide_eq_true_iff]
  exact ⟨Nat.toDigits_ne_nil, hlen, List.all_eq_true.mpr fun _ hc => isDigit_of_mem_toDigits hc⟩

theorem number_toDigits (n : Nat) : number (Nat.toDigits 10 n) = n := Nat.ofDigitChars_ten_toDigits

theorem matchPorts_port (h : n ≤ 65535) : matchPorts (Nat.toDigits 10 n) = some (n, n) := by
  simp [matchPorts, splitOn_of_not_mem (not_mem_toDigits (c := '-') (by decide) n), isPort_toDigits h, number_toDigits]

theorem matchPorts_range (hn : n ≤ 65535) (hm : m ≤ 65535) :
    matchPorts (Nat.toDigits 10 n ++ '-' :: Nat.toDigits 10 m) = some (n, m) := by
  have hsplit : (Nat.toDigits 10 n ++ '-' :: Nat.toDigits 10 m).splitOn '-' = [Nat.toDigits 10 n, Nat.toDigits 10 m] :=
    splitOn_pair (not_mem_toDigits (by decide) n) (not_mem_toDigits (by decide) m)
  simp [matchPorts, hsplit, isPort_toDigits hn, isPort_toDigits hm, number_toDigits]

theorem matchPorts_format (str : Value → String) (r : PortRange) :
    matchPorts (portText str (some r.format)).toList = some (r.start, r.stop) := by
  have hle := r.le
  have hbound := r.bound
  unfold PortRange.format
  split
  · rename_i h
    have htext : (toString (r.start : Int)).toList = Nat.toDigits 10 r.start := Nat.toList_repr
    change matchPorts (String.ofList (strip (toString (r.start : Int)).toList)).toList = _
    rw [String.toList_ofList, htext, (isWord_toDigits _).clean.strip_eq, matchPorts_port (by omega), ← h]
  · have htext : (toString r.start ++ "-" ++ toString r.stop).toList =
        Nat.toDigits 10 r.start ++ '-' :: Nat.toDigits 10 r.stop := by
      rw [String.toList_append, String.toList_append, List.append_assoc, toList_toString, toList_toString]
      rfl
    have hword := (isWord_toDigits r.start).append_cons (c := '-') (by decide) (isWord_toDigits r.stop)
    change matchPorts (String.ofList (strip (toString r.start ++ "-" ++ toString r.stop).toList)).toList = _
    rw [String.toList_ofList, htext, hword.clean.strip_eq, matchPorts_range (by omega) (by omega)]

/-- What the panel stores for a range, both programs read as the range. -/
theorem checkPorts_format (outside field : String) (str : Value → String) (r : PortRange) :
    checkPorts outside field (portText str (some r.format)) = .ok r := by
  have hpos := r.pos
  have hle := r.le
  have hbound := r.bound
  rw [checkPorts, matchPorts_format]
  simp only
  rw [dif_pos ⟨⟨hpos, by omega⟩, by omega, hbound⟩, dif_pos hle, dif_pos r.few]

end Ranges

/-! ## The loader on one entry -/

section Load

variable {py : Panel} {e : Entry} {entries : List Entry}

/-- The host is no IPv6 address and has no zone: both spell themselves with these characters. -/
def Entry.Ipv4Only (e : Entry) : Prop := ':' ∉ e.backendHost.toList ∧ '%' ∉ e.backendHost.toList

/-- Every host name the panel takes has an IPv4 address that is no loopback address. -/
def Resolves (py : Panel) : Prop :=
  ∀ host : String, isHostName host.toList = true → lower host.toList ≠ "localhost".toList →
    ∃ ip others, py.getaddrinfo host = .ok (ip :: others) ∧ ip.isLoopback = false

structure Loaded (py : Panel) (e : Entry) (f : Forward) : Prop where
  name : f.name = e.name
  listen : f.listen = e.listen
  backend : f.backend = e.backend
  address : resolveIpv4 py.toOutside e.backendHost = .ok f.backendIp
  banCheck : f.banCheck = e.banCheck
  zeroTrust : f.zeroTrust = e.zeroTrust

theorem takeWhile_zone {text : List Char} (hzone : '%' ∉ text) : text.takeWhile (· != '%') = text := by
  rw [List.takeWhile_eq_self_iff]
  intro c hc
  have : c ≠ '%' := fun he => hzone (he ▸ hc)
  simpa using this

theorem isIPv6_eq_false {text : List Char} (hcolon : ':' ∉ text) (hzone : '%' ∉ text) : isIPv6 text = false := by
  unfold isIPv6
  simp [takeWhile_zone hzone, splitOn_of_not_mem hcolon]

theorem literalOf_eq {text : List Char} (h : isHostText text = true) (hzone : '%' ∉ text) : literalOf text = text := by
  rw [isHostText, decide_eq_true_iff] at h
  have hopen : text.head? ≠ some '[' := by
    intro hhead
    have := List.all_eq_true.mp h.2.2 '[' (List.mem_of_mem_head? hhead)
    revert this
    decide
  rw [literalOf, if_neg fun hc => hopen hc.1, takeWhile_zone hzone]

theorem acceptsHost_cases {text : List Char} (h : acceptsHost text = true) (hcolon : ':' ∉ text) (hzone : '%' ∉ text) :
    isIPv4 text = true ∨ isHostName text = true := by
  have htext : isHostText text = true := (Bool.and_eq_true_iff.mp h).1
  rw [acceptsHost, literalOf_eq htext hzone, isIPv6_eq_false hcolon hzone] at h
  simpa [htext, hcolon] using h

theorem resolves_host (hpy : Resolves py) (h : e.Ipv4Only) :
    ∃ ip, resolveIpv4 py.toOutside e.backendHost = .ok ip ∧ ip.isLoopback = false := by
  unfold resolveIpv4
  cases hread : Ip4.read e.backendHost with
  | some ip => exact ⟨ip, rfl, e.notLoopback ip hread⟩
  | none =>
    have hname : isHostName e.backendHost.toList = true := by
      rcases acceptsHost_cases e.accepted h.1 h.2 with hip | hname
      · rw [Ip4.read, dif_pos hip] at hread
        cases hread
      · exact hname
    obtain ⟨ip, others, hlookup, hloop⟩ := hpy e.backendHost hname e.notLocalhost
    exact ⟨ip, by simp [hlookup], hloop⟩

theorem isSpace_of_isNameChar {c : Char} (h : Haproxy.isNameChar c = true) : isSpace c = false := by
  have hrange : 48 ≤ c.toNat ∧ c.toNat ≤ 122 := by
    simp only [Haproxy.isNameChar, Bool.or_eq_true, Bool.and_eq_true, decide_eq_true_eq, beq_iff_eq, Char.le_def,
      UInt32.le_iff_toNat_le] at h
    rcases h with ((⟨h, h'⟩ | ⟨h, h'⟩) | ⟨h, h'⟩) | rfl
    · exact ⟨le_trans (by decide) h, le_trans h' (by decide)⟩
    · exact ⟨le_trans (by decide) h, le_trans h' (by decide)⟩
    · exact ⟨le_trans (by decide) h, le_trans h' (by decide)⟩
    · decide
  exact isSpace_of_shown (by omega) (by omega)

theorem isWord_of_isHostText {text : List Char} (h : isHostText text = true) : IsWord text := by
  rw [isHostText, decide_eq_true_iff] at h
  refine ⟨h.1, fun c hc => ?_⟩
  have hchar := List.all_eq_true.mp h.2.2 c hc
  simp only [Bool.or_eq_true, beq_iff_eq] at hchar
  rcases hchar with (((hname | rfl) | rfl) | rfl) | rfl
  · exact isSpace_of_isNameChar hname
  all_goals decide

theorem Entry.isHostText (e : Entry) : isHostText e.backendHost.toList = true := (Bool.and_eq_true_iff.mp e.accepted).1

theorem Entry.isWord_name (e : Entry) : IsWord e.name.toList := by
  have h := e.identifier
  cases hname : e.name.toList with
  | nil =>
    rw [hname] at h
    cases h
  | cons c cs =>
    rw [hname, Haproxy.isIdentifier] at h
    simp only [Bool.and_eq_true, List.all_eq_true] at h
    refine ⟨by simp, fun d hd => ?_⟩
    rcases List.mem_cons.mp hd with rfl | hd
    · exact isSpace_of_isNameChar h.1.1.1
    · have hchar := h.2 d hd
      simp only [Haproxy.isIdentifierChar, Bool.or_eq_true, beq_iff_eq] at hchar
      rcases hchar with (hchar | rfl) | rfl
      · exact isSpace_of_isNameChar hchar
      all_goals decide

theorem stripped_str {str : Value → String} {s : String} (h : IsWord s.toList) : stripped str (some (.str s)) = s := by
  have hne : s ≠ "" := fun he => h.ne_nil (by rw [he]; rfl)
  simp [stripped, Value.truthy, Value.text, hne, h.clean.strip_eq]

theorem requireConfig_pos {p : Prop} [Decidable p] (hp : p) (message : String) : requireConfig p message = .ok ⟨hp⟩ :=
  dif_pos hp

theorem portRange_format (py : Outside) (field : String) (r : PortRange) : portRange py (some r.format) field = .ok r := by
  rw [portRange, checkPorts_format]
  rfl

theorem normalizeForward_value (hpy : Resolves py) (h : e.Ipv4Only) :
    ∃ f, normalizeForward py.toOutside e.value = .ok f ∧ Loaded py e f := by
  obtain ⟨ip, hip, hloop⟩ := resolves_host hpy h
  have hname := e.isWord_name
  have hword := isWord_of_isHostText e.isHostText
  have hhost : stripped py.str (some (.str e.backendHost)) ≠ "" := by
    rw [stripped_str hword]
    exact fun he => hword.ne_nil (by rw [he]; rfl)
  have hne : e.name ≠ "" := fun he => hname.ne_nil (by rw [he]; rfl)
  refine ⟨⟨e.name, e.listen, ip, e.backend, e.banCheck, e.zeroTrust, e.sameCount, hloop⟩, ?_,
    rfl, rfl, rfl, hip, rfl, rfl⟩
  change (portRange py.toOutside (some e.listen.format) "listen_port" >>= _) = _
  rw [portRange_format]
  change (requireConfig (stripped py.str (some (.str e.backendHost)) ≠ "") _ >>= _) = _
  rw [requireConfig_pos hhost]
  change (resolveIpv4 py.toOutside (stripped py.str (some (.str e.backendHost))) >>= _) = _
  rw [stripped_str hword, hip]
  change (requireConfig (ip.isLoopback = false) _ >>= _) = _
  rw [requireConfig_pos hloop]
  change (portRange py.toOutside (some e.backend.format) "backend_port" >>= _) = _
  rw [portRange_format]
  change (requireConfig (e.listen.count = e.backend.count) _ >>= _) = _
  rw [requireConfig_pos e.sameCount]
  change (Except.ok _ : Except Fault Forward) = _
  simp [List.lookup, stripped_str hname, hne, Value.truthy]

/-- Two enabled entries share no port. -/
def EnabledApart (e f : Entry) : Prop := e.enabled = true → f.enabled = true → e.listen.Apart f.listen

theorem skipped_value (e : Entry) : skipped e.value = !e.enabled := by
  unfold skipped Entry.value
  cases e.enabled <;> simp [List.lookup]

theorem loadEntries_values (path : String) (hpy : Resolves py) (h : ∀ e ∈ entries, e.enabled = true → e.Ipv4Only)
    (hapart : entries.Pairwise EnabledApart) (index : Nat) (seenPorts : List Nat) (before : List Forward)
    (hseen : ∀ e ∈ entries, e.enabled = true → ∀ port ∈ e.listen.ports, port ∉ seenPorts) :
    ∃ new, loadEntries py.toOutside path index seenPorts before (entries.map Entry.value) = .ok (before ++ new) ∧
      List.Forall₂ (Loaded py) (entries.filter (·.enabled)) new := by
  induction entries generalizing index seenPorts before with
  | nil => exact ⟨[], by simp [loadEntries], .nil⟩
  | cons e entries ih =>
    have hrest := fun e' he => h e' (List.mem_cons_of_mem e he)
    have hseenRest := fun e' he => hseen e' (List.mem_cons_of_mem e he)
    obtain ⟨hhead, htail⟩ := List.pairwise_cons.mp hapart
    rw [List.map_cons, loadEntries, skipped_value]
    cases henabled : e.enabled with
    | false =>
      obtain ⟨new, hload, hnew⟩ := ih hrest htail (index + 1) seenPorts before hseenRest
      exact ⟨new, by simpa using hload, by simpa [henabled] using hnew⟩
    | true =>
      obtain ⟨f, hf, hloaded⟩ := normalizeForward_value hpy (h e List.mem_cons_self henabled)
      have hfree : f.listen.ports.filter (· ∈ seenPorts) = [] := by
        rw [List.filter_eq_nil_iff]
        intro port hport
        rw [hloaded.listen] at hport
        simpa using hseen e List.mem_cons_self henabled port hport
      have hseen' : ∀ e' ∈ entries, e'.enabled = true → ∀ port ∈ e'.listen.ports,
          port ∉ seenPorts ++ f.listen.ports := by
        intro e' he' hen port hport hmem
        rcases List.mem_append.mp hmem with hmem | hmem
        · exact hseenRest e' he' hen port hport hmem
        · rw [hloaded.listen] at hmem
          exact hhead e' he' henabled hen port hmem hport
      obtain ⟨new, hload, hnew⟩ := ih hrest htail (index + 1) _ (before ++ [f]) hseen'
      refine ⟨f :: new, ?_, by simpa [henabled] using List.Forall₂.cons hloaded hnew⟩
      simpa [hf, hfree] using hload

end Load

/-! ## What a request does to the entries -/

section Requests

variable {py : Panel} {data written : Fields} {raw : Value} {e : Entry} {entries : List Entry} {forwards : List Value}
  {r : PortRange} {name : String} {originalName revision : Option String} {busy : PortRange → Option String}

instance : Std.Symm EnabledApart := ⟨fun _ _ h he hf port hport hport' => h hf he port hport' hport⟩

structure Holds (data : Fields) (entries : List Entry) : Prop where
  stored : storedForwards data = entries.map Entry.value
  apart : entries.Pairwise EnabledApart

theorem holds_nil : Holds [] [] := ⟨rfl, List.Pairwise.nil⟩

theorem disabled_value (e : Entry) (name : String) : ∃ fields, e.value = .map fields ∧ fieldsOf e.value = .ok fields ∧
    disabled fields = !e.enabled ∧ hasName name fields = (e.name == name) ∧
    fields.lookup "listen_port" = some e.listen.format := by
  refine ⟨_, rfl, rfl, ?_, ?_, rfl⟩
  · cases e.enabled <;> simp [disabled, List.lookup]
  · simp [hasName, List.lookup]

theorem apart_of_not_overlap {s : PortRange} (h : ¬ (r.start ≤ s.stop ∧ s.start ≤ r.stop)) : r.Apart s := by
  intro port hr hs
  rw [PortRange.mem_ports] at hr hs
  omega

/-- Nothing is said of a range that is apart from every enabled entry but the one passed over. -/
theorem apart_of_overlappingForward {skip : Option Nat} {index : Nat}
    (h : overlappingForward py r skip index (entries.map Entry.value) = .ok none) (k : Nat) (hk : k < entries.length)
    (hskip : skip ≠ some (index + k)) (henabled : entries[k].enabled = true) : r.Apart entries[k].listen := by
  induction entries generalizing index k with
  | nil => cases hk
  | cons e entries ih =>
    obtain ⟨fields, -, hfields, hdisabled, -, hlisten⟩ := disabled_value e ""
    rw [List.map_cons, overlappingForward] at h
    simp only [hfields, bind, Except.bind, hdisabled, hlisten, checkPorts_format] at h
    have hlater : ∀ k', k = k' + 1 → overlappingForward py r skip (index + 1) (entries.map Entry.value) = .ok none →
        r.Apart (e :: entries)[k].listen := by
      rintro k' rfl hrest
      rw [List.getElem_cons_succ] at henabled ⊢
      exact ih hrest k' (by simpa using hk) (by rwa [Nat.add_assoc, Nat.add_comm 1]) henabled
    split at h
    · rename_i hs
      cases k with
      | zero => exact absurd hs.symm hskip
      | succ k => exact hlater k rfl h
    · cases hen : e.enabled with
      | false =>
        simp only [hen, Bool.not_false, if_true] at h
        cases k with
        | zero =>
          rw [List.getElem_cons_zero, hen] at henabled
          cases henabled
        | succ k => exact hlater k rfl h
      | true =>
        simp only [hen, Bool.not_true, Bool.false_eq_true, if_false] at h
        split at h
        · cases h
        · rename_i hover
          cases k with
          | zero => exact apart_of_not_overlap hover
          | succ k => exact hlater k rfl h

theorem withoutName_values {kept : List Value} (h : withoutName name (entries.map Entry.value) = .ok kept) :
    kept = (entries.filter (·.name != name)).map Entry.value := by
  induction entries generalizing kept with
  | nil =>
    obtain rfl := Except.ok.inj h
    rfl
  | cons e entries ih =>
    obtain ⟨fields, -, hfields, -, hname, -⟩ := disabled_value e name
    rw [List.map_cons, withoutName, hfields] at h
    change (withoutName name (entries.map Entry.value) >>= fun rest =>
      .ok (if hasName name fields = true then rest else e.value :: rest)) = _ at h
    obtain ⟨rest, hrest, heq⟩ := bind_eq_ok.mp h
    obtain rfl := ih hrest
    rw [← Except.ok.inj heq, hname]
    by_cases hen : e.name = name <;> simp [hen]

/-! ### What is written -/

theorem lookup_map_set {fields : Fields} {key : String} {v : Value} (h : fields.any (·.1 == key) = true) :
    (fields.map fun f => if f.1 = key then (key, v) else f).lookup key = some v := by
  induction fields with
  | nil => cases h
  | cons f fields ih =>
    by_cases hf : f.1 = key
    · simp [hf]
    · have hrest : fields.any (·.1 == key) = true := by simpa [hf] using h
      rw [List.map_cons, if_neg hf]
      have hkey : (key == f.1) = false := beq_eq_false_iff_ne.mpr (Ne.symm hf)
      obtain ⟨k, w⟩ := f
      rw [List.lookup_cons, hkey]
      exact ih hrest

theorem lookup_setField {fields : Fields} {key : String} {v : Value} : (setField fields key v).lookup key = some v := by
  unfold setField
  split
  · rename_i h
    exact lookup_map_set h
  · rename_i h
    have hnone : fields.lookup key = none := by
      rw [List.lookup_eq_none_iff]
      intro f hf
      rw [bne_iff_ne]
      rintro rfl
      exact h (List.any_eq_true.mpr ⟨f, hf, beq_self_eq_true _⟩)
    rw [List.lookup_append, hnone]
    simp [List.lookup]

theorem storedForwards_write (h : writeForwards py data forwards = .ok written) : storedForwards written = forwards := by
  unfold writeForwards at h
  dsimp only at h
  split at h
  · obtain rfl := Except.ok.inj h
    rw [storedForwards, forwardsOf, lookup_setField]
  · cases h

theorem checkListen_ok {entry : Entry} {skip : Option Nat} (h : checkListen py busy forwards entry skip = .ok ()) :
    overlappingForward py entry.listen skip 0 forwards = .ok none := by
  unfold checkListen at h
  obtain ⟨overlap, hoverlap, hrest⟩ := bind_eq_ok.mp h
  cases overlap with
  | none => exact hoverlap
  | some text => cases hrest

/-- What an accepted save does to the list: the normalized entry at the end, or in the place of one that
is there. -/
theorem saveUdp_ok (h : saveUdp py data raw originalName revision busy = .ok written) :
    ∃ entry, normalizeUdpEntry py raw = .ok entry ∧
      ((storedForwards written = storedForwards data ++ [entry.value] ∧
          overlappingForward py entry.listen none 0 (storedForwards data) = .ok none) ∨
        ∃ name idx, findName name (storedForwards data) = .ok (some idx) ∧
          storedForwards written = (storedForwards data).set idx entry.value ∧
          overlappingForward py entry.listen (some idx) 0 (storedForwards data) = .ok none) := by
  unfold saveUdp at h
  obtain ⟨entry, hentry, hrest⟩ := bind_eq_ok.mp h
  refine ⟨entry, hentry, ?_⟩
  dsimp only at hrest
  split at hrest
  · unfold createUdp at hrest
    obtain ⟨_, -, hrest⟩ := bind_eq_ok.mp hrest
    obtain ⟨_, hlisten, hwrite⟩ := bind_eq_ok.mp hrest
    exact Or.inl ⟨storedForwards_write hwrite, checkListen_ok hlisten⟩
  · unfold replaceUdp at hrest
    obtain ⟨found, hfound, hrest⟩ := bind_eq_ok.mp hrest
    cases found with
    | none => cases hrest
    | some idx =>
      obtain ⟨stored, -, hrest⟩ := bind_eq_ok.mp hrest
      obtain ⟨_, -, hrest⟩ := bind_eq_ok.mp hrest
      obtain ⟨_, -, hrest⟩ := bind_eq_ok.mp hrest
      obtain ⟨_, hlisten, hwrite⟩ := bind_eq_ok.mp hrest
      exact Or.inr ⟨_, idx, hfound, storedForwards_write hwrite, checkListen_ok hlisten⟩

theorem deleteUdp_ok (h : deleteUdp py data name = .ok written) :
    ∃ kept, withoutName name (storedForwards data) = .ok kept ∧ storedForwards written = kept := by
  unfold deleteUdp at h
  split at h
  · rename_i forwards hdata
    obtain ⟨kept, hkept, hrest⟩ := bind_eq_ok.mp h
    refine ⟨kept, by rw [storedForwards, hdata]; exact hkept, ?_⟩
    split at hrest
    · cases hrest
    · exact storedForwards_write hrest
  · cases h

end Requests

/-! ## Whole sessions -/

section Sessions

variable {py : Panel} {data written : Fields} {raw : Value} {entries : List Entry} {name : String}
  {originalName revision : Option String} {busy : PortRange → Option String} {requests : List Request}

theorem Holds.append {entry : Entry} (h : Holds data entries)
    (hoverlap : overlappingForward py entry.listen none 0 (storedForwards data) = .ok none)
    (hwritten : storedForwards written = storedForwards data ++ [entry.value]) : Holds written (entries ++ [entry]) where
  stored := by rw [hwritten, h.stored, List.map_append, List.map_singleton]
  apart := by
    rw [List.pairwise_append]
    refine ⟨h.apart, List.pairwise_singleton _ _, ?_⟩
    intro e he f hf hen _ port hport hport'
    obtain rfl := List.mem_singleton.mp hf
    obtain ⟨k, hk, rfl⟩ := List.getElem_of_mem he
    rw [h.stored] at hoverlap
    exact apart_of_overlappingForward hoverlap k hk (by simp) hen port hport' hport

theorem Holds.set {entry : Entry} {idx : Nat} (h : Holds data entries)
    (hoverlap : overlappingForward py entry.listen (some idx) 0 (storedForwards data) = .ok none)
    (hwritten : storedForwards written = (storedForwards data).set idx entry.value) :
    Holds written (entries.set idx entry) where
  stored := by rw [hwritten, h.stored, List.map_set]
  apart := by
    have hnew : ∀ k (hk : k < entries.length), k ≠ idx → EnabledApart entry entries[k] := by
      intro k hk hne _ hen
      rw [h.stored] at hoverlap
      exact apart_of_overlappingForward hoverlap k hk (by simpa [eq_comm] using hne) hen
    rw [List.pairwise_iff_getElem]
    intro i j hi hj hij
    rw [List.length_set] at hi hj
    rw [List.getElem_set, List.getElem_set]
    split
    · rw [if_neg (by omega)]
      exact hnew j hj (by omega)
    · split
      · exact Std.Symm.symm _ _ (hnew i hi (by omega))
      · exact List.pairwise_iff_getElem.mp h.apart i j hi hj hij

/-- What a written file holds: entries of the file before, and the one that was saved. -/
theorem holds_answer {request : Request} (h : Holds data entries) (hw : answer py data request = .ok written) :
    ∃ entries', Holds written entries' ∧ ∀ e ∈ entries', e ∈ entries ∨
      ∃ raw originalName revision busy, request = .save raw originalName revision busy ∧
        normalizeUdpEntry py raw = .ok e := by
  cases request with
  | save raw originalName revision busy =>
    obtain ⟨entry, hentry, ⟨hwritten, hoverlap⟩ | ⟨name, idx, -, hwritten, hoverlap⟩⟩ := saveUdp_ok hw
    · refine ⟨entries ++ [entry], h.append hoverlap hwritten, fun e he => ?_⟩
      rcases List.mem_append.mp he with he | he
      · exact Or.inl he
      · obtain rfl := List.mem_singleton.mp he
        exact Or.inr ⟨raw, originalName, revision, busy, rfl, hentry⟩
    · refine ⟨entries.set idx entry, h.set hoverlap hwritten, fun e he => ?_⟩
      rcases List.mem_or_eq_of_mem_set he with he | rfl
      · exact Or.inl he
      · exact Or.inr ⟨raw, originalName, revision, busy, rfl, hentry⟩
  | delete name =>
    obtain ⟨kept, hkept, hwritten⟩ := deleteUdp_ok hw
    rw [h.stored] at hkept
    exact ⟨entries.filter (·.name != name), ⟨hwritten.trans (withoutName_values hkept), h.apart.filter _⟩,
      fun e he => Or.inl (List.mem_filter.mp he).1⟩

theorem normalizeUdpFields_ok {raw : Fields} {e : Entry} (h : normalizeUdpFields py raw = .ok e) :
    e.backendHost = stripped py.str (raw.lookup "backend_host") ∧
      (e.enabled = true → raw.lookup "enabled" ≠ some (.bool false)) := by
  unfold normalizeUdpFields at h
  obtain ⟨_, -, h⟩ := bind_eq_ok.mp h
  obtain ⟨_, -, h⟩ := bind_eq_ok.mp h
  obtain ⟨_, -, h⟩ := bind_eq_ok.mp h
  obtain ⟨_, -, h⟩ := bind_eq_ok.mp h
  obtain ⟨_, -, h⟩ := bind_eq_ok.mp h
  obtain ⟨_, -, h⟩ := bind_eq_ok.mp h
  obtain ⟨_, -, h⟩ := bind_eq_ok.mp h
  obtain ⟨_, -, h⟩ := bind_eq_ok.mp h
  obtain ⟨_, -, h⟩ := bind_eq_ok.mp h
  obtain ⟨enabled, henabled, h⟩ := bind_eq_ok.mp h
  obtain rfl := Except.ok.inj h
  refine ⟨rfl, fun htrue hfalse => ?_⟩
  change enabled = true at htrue
  rw [boolean, hfalse, htrue] at henabled
  cases henabled

/-- The invariant of a session: the entries are the panel's own, and the enabled ones name hosts the
loader can take. -/
def Ready (data : Fields) : Prop :=
  ∃ entries, Holds data entries ∧ ∀ e ∈ entries, e.enabled = true → e.Ipv4Only

theorem ready_step {request : Request} (hreq : NamesIpv4 py data request) (h : Ready data) :
    Ready (step py data request) := by
  obtain ⟨entries, hholds, hready⟩ := h
  unfold step
  split
  · rename_i written hw
    obtain ⟨entries', hholds', hfrom⟩ := holds_answer hholds hw
    refine ⟨entries', hholds', fun e he hen => ?_⟩
    rcases hfrom e he with hold | ⟨raw, originalName, revision, busy, rfl, hentry⟩
    · exact hready e hold hen
    · cases raw with
      | map fields =>
        obtain ⟨hhost, hfalse⟩ := normalizeUdpFields_ok hentry
        unfold Entry.Ipv4Only
        rw [hhost]
        exact hreq ⟨written, hw⟩ (hfalse hen)
      | _ => cases hentry
  · exact ⟨entries, hholds, hready⟩

theorem ready_of_run (h : Along (step py) (NamesIpv4 py) [] requests) : Ready (run (step py) [] requests) :=
  h.keeps ⟨[], holds_nil, by simp⟩ fun _ _ hi hc => ready_step hc hi

theorem loadForwards_stored (path : String) :
    loadForwards py.toOutside path (.parsed (.map data)) = loadEntries py.toOutside path 0 [] [] (storedForwards data) := by
  cases data with
  | nil => rfl
  | cons field data =>
    unfold loadForwards storedForwards
    simp only [Value.truthy, List.isEmpty_cons, Bool.not_false, if_true]
    cases forwardsOf (field :: data) with
    | none => rfl
    | some v => cases v <;> rfl

/-- After every session of such requests the loader takes the file: the enabled ranges are apart, and the
forwards it loads are the enabled entries. -/
theorem panel_file_loads (hpy : Resolves py) (path : String)
    (h : Along (step py) (NamesIpv4 py) [] requests) :
    ∃ (entries : List Entry) (forwards : List Forward),
      storedForwards (run (step py) [] requests) = entries.map Entry.value ∧
      entries.Pairwise EnabledApart ∧
      loadForwards py.toOutside path (.parsed (.map (run (step py) [] requests))) = .ok forwards ∧
      List.Forall₂ (Loaded py) (entries.filter (·.enabled)) forwards := by
  obtain ⟨entries, hholds, hready⟩ := ready_of_run h
  obtain ⟨forwards, hload, hforwards⟩ := loadEntries_values path hpy hready hholds.apart 0 [] [] (by simp)
  refine ⟨entries, forwards, hholds.stored, hholds.apart, ?_, hforwards⟩
  rw [loadForwards_stored, hholds.stored]
  simpa using hload

end Sessions

/-! ## A session the loader refuses -/

/-- A resolver that knows every host name and nothing else. -/
def lanPanel : Panel where
  str _ := ""
  repr := id
  getaddrinfo host := if isHostName host.toList then .ok [⟨"10.0.0.9", by decide⟩] else .error (.os "no such host")
  reprValue _ := ""
  isLoopback6 host := host == "::1"
  entryRevision _ := ""
  fits _ := true

def dnsRequest (host : String) : Request :=
  .save (.map [("name", .str "dns"), ("listen_port", .int 53), ("backend_host", .str host), ("backend_port", .int 53)])
    none none fun _ => none

theorem lanPanel_resolves : Resolves lanPanel := by
  intro host hname _
  exact ⟨_, _, if_pos hname, by decide⟩

def gameRequest (name : String) (originalName : Option String) : Request :=
  .save (.map [("name", .str name), ("listen_port", .str "2000-2002"), ("backend_host", .str "games"),
    ("backend_port", .str "3000-3002")]) originalName none fun _ => none

/-- Two forwards: one is disabled while it has an IPv6 backend and enabled again, the other renamed. -/
def twoForwards : List Request :=
  [dnsRequest "10.0.0.5", gameRequest "game" none,
    .save (.map [("name", .str "dns"), ("listen_port", .int 53), ("backend_host", .str "2001:db8::5"),
      ("backend_port", .int 53), ("enabled", .bool false)]) (some "dns") none fun _ => none,
    gameRequest "arena" (some "game"),
    .save (.map [("name", .str "dns"), ("listen_port", .int 53), ("backend_host", .str "10.0.0.6"),
      ("backend_port", .int 53)]) (some "dns") none fun _ => none]

theorem panel_file_loads_twoForwards :
    (storedForwards (run (step lanPanel) [] twoForwards)).map (fun forward =>
        (fieldsOf forward).toOption.map fun fields => (hasName "arena" fields, disabled fields)) =
      [some (false, false), some (true, false)] ∧
    ∃ (entries : List Entry) (forwards : List Forward),
      storedForwards (run (step lanPanel) [] twoForwards) = entries.map Entry.value ∧
      entries.Pairwise EnabledApart ∧
      loadForwards lanPanel.toOutside "udp.yml" (.parsed (.map (run (step lanPanel) [] twoForwards))) = .ok forwards ∧
      List.Forall₂ (Loaded lanPanel) (entries.filter (·.enabled)) forwards :=
  ⟨by decide +kernel, panel_file_loads lanPanel_resolves "udp.yml"
    ⟨fun _ _ => by decide, fun _ _ => by decide, fun _ h => absurd rfl h, fun _ _ => by decide, fun _ _ => by decide,
      trivial⟩⟩

/-- The panel stores an IPv6 backend, and the loader then refuses the whole file. -/
theorem panel_file_refused : Resolves lanPanel ∧ ∃ written, answer lanPanel [] (dnsRequest "2001:db8::5") = .ok written ∧
    ∃ message, loadForwards lanPanel.toOutside "udp.yml" (.parsed (.map written)) = .error (.systemExit message) :=
  ⟨lanPanel_resolves, _, rfl, _, rfl⟩

end EasyHaProxy.Udp
