import EasyHaProxy.Lib.Netfilter
import EasyHaProxy.Udp.Forwards

/-! The rules the loader builds from the forwards, the text it hands to `iptables-restore`, and what the
chains then do with a packet. -/
namespace EasyHaProxy.Udp

open EasyHaProxy.Netfilter EasyHaProxy.Text
open Guardd (isIPv4)

/-! ## The commands -/

/-- The names of the address sets, which the environment of the loader may change. -/
structure SetNames where
  ban : String
  auth : String
  banWord : IsWord ban.toList
  authWord : IsWord auth.toList

/-- `BAN_SET` and `AUTH_SET` where the environment does not name others. -/
def SetNames.default : SetNames := ⟨"haproxy_ban", "haproxy_ip_auth", by decide, by decide⟩

def rawChain : String := "HP_UDP_RAW"
def natPre : String := "HP_UDP_PRE"
def natPost : String := "HP_UDP_POST"
def fwdChain : String := "HP_UDP_FWD"

/-- The table, the built-in chain and the chain it jumps to. -/
def wiring : List (String × String × String) :=
  [("raw", "PREROUTING", rawChain), ("nat", "PREROUTING", natPre), ("nat", "POSTROUTING", natPost),
    ("filter", "FORWARD", fwdChain)]

def dportTokens (r : PortRange) : List String :=
  ["--dport", if r.start = r.stop then toString r.start else toString r.start ++ ":" ++ toString r.stop]

def establishedCommand : List String :=
  ["-t", "filter", "-A", fwdChain, "-m", "conntrack", "--ctstate", "ESTABLISHED,RELATED", "-j", "ACCEPT"]

def banCommand (names : SetNames) (fwd : Forward) : List String :=
  ["-t", "raw", "-A", rawChain, "-p", "udp"] ++ dportTokens fwd.listen ++
    ["-m", "set", "--match-set", names.ban, "src", "-j", "DROP"]

def zeroTrustCommand (names : SetNames) (fwd : Forward) : List String :=
  ["-t", "raw", "-A", rawChain, "-p", "udp"] ++ dportTokens fwd.listen ++
    ["-m", "set", "!", "--match-set", names.auth, "src", "-j", "DROP"]

def dnatCommand (ip : String) (listenPort backendPort : Nat) : List String :=
  ["-t", "nat", "-A", natPre, "-p", "udp", "--dport", toString listenPort, "-j", "DNAT", "--to-destination",
    ip ++ ":" ++ toString backendPort]

def masqueradeCommand (ip : String) (backendPort : Nat) : List String :=
  ["-t", "nat", "-A", natPost, "-p", "udp", "-d", ip, "--dport", toString backendPort, "-j", "MASQUERADE"]

def acceptCommand (ip : String) (backendPort : Nat) : List String :=
  ["-t", "filter", "-A", fwdChain, "-p", "udp", "-d", ip, "--dport", toString backendPort, "-j", "ACCEPT"]

def Forward.portPairs (fwd : Forward) : List (Nat × Nat) :=
  fwd.listen.ports.zipIdx.map fun (listenPort, offset) => (listenPort, fwd.backend.start + offset)

def portCommands (ip : String) (pair : Nat × Nat) : List (List String) :=
  [dnatCommand ip pair.1 pair.2, masqueradeCommand ip pair.2, acceptCommand ip pair.2]

/-- The body of the loop of `build_rule_commands`. -/
def forwardCommands (names : SetNames) (fwd : Forward) : List (List String) :=
  (if fwd.banCheck then [banCommand names fwd] else []) ++
    ((if fwd.zeroTrust then [zeroTrustCommand names fwd] else []) ++
      fwd.portPairs.flatMap (portCommands fwd.backendIp.text))

def buildRuleCommands (names : SetNames) (forwards : List Forward) : List (List String) :=
  establishedCommand :: forwards.flatMap (forwardCommands names)

/-- `len(command) >= 3 and command[:2] == ["-t", table]`. -/
def ofTable (table : String) (command : List String) : Bool := 3 ≤ command.length ∧ command.take 2 = ["-t", table]

/-- The lines `_run_restore` writes for one table. -/
def tableLines (commands : List (List String)) (table : String) : List String :=
  ("*" ++ table) :: (((wiring.filter (·.1 = table)).map (·.2.2)).map ("-F " ++ ·) ++
    (((commands.filter (ofTable table)).map (·.drop 2)).map (" ".intercalate ·) ++ ["COMMIT"]))

/-- The input of `iptables-restore --noflush`. -/
def restoreText (commands : List (List String)) : String :=
  "\n".intercalate (["raw", "nat", "filter"].flatMap (tableLines commands)) ++ "\n"

/-! ## The rules they are read as -/

def establishedRule : Rule Ip4 := ⟨[.ctstate [.established, .related]], .accept⟩

def dropRule (r : PortRange) (set : String) (wanted : Bool) : Rule Ip4 :=
  ⟨[.proto .udp, .dport r.start r.stop, .set set wanted], .drop⟩

def dnatRule (ip : Ip4) (listenPort backendPort : Nat) : Rule Ip4 :=
  ⟨[.proto .udp, .dport listenPort listenPort], .dnat ip backendPort⟩

/-- What lets a packet to the backend out, with the target of its chain. -/
def backendRule (ip : Ip4) (backendPort : Nat) (target : Target Ip4) : Rule Ip4 :=
  ⟨[.proto .udp, .dst ip, .dport backendPort backendPort], target⟩

def rawRules (names : SetNames) (fwd : Forward) : List (Rule Ip4) :=
  (if fwd.banCheck then [dropRule fwd.listen names.ban true] else []) ++
    if fwd.zeroTrust then [dropRule fwd.listen names.auth false] else []

def natRules (fwd : Forward) : List (String × Rule Ip4) :=
  fwd.portPairs.flatMap fun (listenPort, backendPort) =>
    [(natPre, dnatRule fwd.backendIp listenPort backendPort),
      (natPost, backendRule fwd.backendIp backendPort .masquerade)]

def filterRules (fwd : Forward) : List (Rule Ip4) :=
  fwd.portPairs.map fun (_, backendPort) => backendRule fwd.backendIp backendPort .accept

def ruleBlocks (names : SetNames) (forwards : List Forward) : List (Block Ip4) :=
  [⟨"raw", [rawChain], (forwards.flatMap (rawRules names)).map (rawChain, ·)⟩,
    ⟨"nat", [natPre, natPost], forwards.flatMap natRules⟩,
    ⟨"filter", [fwdChain], (establishedRule :: forwards.flatMap filterRules).map (fwdChain, ·)⟩]

/-! ## What is written is what is read -/

section Written

variable {names : SetNames} {fwd : Forward} {forwards : List Forward}

theorem isDigit_or_dot {text : List Char} (h : isIPv4 text = true) {c : Char} (hc : c ∈ text) :
    c.isDigit = true ∨ c = '.' := by
  rw [← @List.intercalate_splitOn _ text _ _ '.'] at hc
  unfold isIPv4 at h
  simp only [Bool.and_eq_true, List.all_eq_true] at h
  rcases mem_intercalate hc with hc | ⟨part, hpart, hc⟩
  · exact Or.inr (by simpa using hc)
  · have := h.2 part hpart
    simp only [Guardd.isOctet, Bool.and_eq_true, List.all_eq_true] at this
    exact Or.inl (this.1.1.1.2 c hc)

theorem Ip4.not_mem_colon (ip : Ip4) : ':' ∉ ip.text.toList := by
  intro h
  rcases isDigit_or_dot ip.valid h with hd | hd
  · revert hd
    decide
  · revert hd
    decide

theorem Ip4.isWord (ip : Ip4) : IsWord ip.text.toList where
  ne_nil := by
    intro hnil
    have := ip.valid
    rw [hnil] at this
    revert this
    decide
  noBlank := by
    intro c hc
    rcases isDigit_or_dot ip.valid hc with hd | rfl
    · exact isSpace_of_isDigit hd
    · decide

theorem Ip4.read_text (ip : Ip4) : Ip4.read ip.text = some ip := by
  rw [Ip4.read, dif_pos ip.valid]

theorem isWord_toString (n : Nat) : IsWord (toString n).toList := by
  rw [toList_toString]
  exact isWord_toDigits n

theorem isWord_colon {a b : String} (ha : IsWord a.toList) (hb : IsWord b.toList) :
    IsWord (a ++ ":" ++ b).toList := by
  rw [String.toList_append, String.toList_append, List.append_assoc]
  exact ha.append_cons (by decide) hb

theorem dportTokens_eq (r : PortRange) : ∃ ports, dportTokens r = ["--dport", ports] ∧ IsWord ports.toList ∧
    readPorts ports = some (r.start, r.stop) := by
  refine ⟨_, rfl, ?_⟩
  split
  · rename_i h
    exact ⟨isWord_toString _, by rw [readPorts_port, ← h]⟩
  · exact ⟨isWord_colon (isWord_toString _) (isWord_toString _), readPorts_range _ _⟩

theorem writes_established : Writes Ip4.read (establishedCommand.drop 2) (fwdChain, establishedRule) where
  args := ⟨_, rfl, rfl⟩
  words := by decide

theorem writes_ban : Writes Ip4.read ((banCommand names fwd).drop 2) (rawChain, dropRule fwd.listen names.ban true) := by
  obtain ⟨ports, htokens, hword, hread⟩ := dportTokens_eq fwd.listen
  rw [banCommand, htokens]
  refine ⟨⟨_, rfl, ?_⟩, ?_⟩
  · simp [readRule, hread, Rule.and, dropRule]
  · change ∀ w ∈ ["-A", rawChain, "-p", "udp", "--dport"] ++
      ports :: (["-m", "set", "--match-set"] ++ names.ban :: ["src", "-j", "DROP"]), _
    exact forall_words (by decide) hword (forall_words (by decide) names.banWord (by decide))

theorem writes_zeroTrust :
    Writes Ip4.read ((zeroTrustCommand names fwd).drop 2) (rawChain, dropRule fwd.listen names.auth false) := by
  obtain ⟨ports, htokens, hword, hread⟩ := dportTokens_eq fwd.listen
  rw [zeroTrustCommand, htokens]
  refine ⟨⟨_, rfl, ?_⟩, ?_⟩
  · simp [readRule, hread, Rule.and, dropRule]
  · change ∀ w ∈ ["-A", rawChain, "-p", "udp", "--dport"] ++
      ports :: (["-m", "set", "!", "--match-set"] ++ names.auth :: ["src", "-j", "DROP"]), _
    exact forall_words (by decide) hword (forall_words (by decide) names.authWord (by decide))

variable (ip : Ip4) (listenPort backendPort : Nat)

theorem writes_dnat : Writes Ip4.read ((dnatCommand ip.text listenPort backendPort).drop 2)
    (natPre, dnatRule ip listenPort backendPort) := by
  refine ⟨⟨_, rfl, ?_⟩, ?_⟩
  · have hdest := readDestination_text ip.read_text ip.not_mem_colon backendPort
    simp only [readRule, readPorts_port, hdest, Option.bind_some, Option.map_some]
    rfl
  · change ∀ w ∈ ["-A", natPre, "-p", "udp", "--dport"] ++
      toString listenPort :: (["-j", "DNAT", "--to-destination"] ++ [ip.text ++ ":" ++ toString backendPort]), _
    exact forall_words (by decide) (isWord_toString _)
      (forall_words (by decide) (isWord_colon ip.isWord (isWord_toString _)) (by decide))

/-- The two rules about the backend's own address differ in the chain and the target. -/
theorem writes_backend {chain target : String} {t : Target Ip4} (hchain : IsWord chain.toList)
    (htarget : IsWord target.toList) (ht : readRule Ip4.read ["-j", target] = some ⟨[], t⟩) :
    Writes Ip4.read ["-A", chain, "-p", "udp", "-d", ip.text, "--dport", toString backendPort, "-j", target]
      (chain, backendRule ip backendPort t) := by
  refine ⟨⟨_, rfl, ?_⟩, ?_⟩
  · simp only [readRule, readPorts_port, ip.read_text, ht, Option.bind_some, Option.map_some]
    rfl
  · change ∀ w ∈ ["-A"] ++ chain :: (["-p", "udp", "-d"] ++
      ip.text :: (["--dport"] ++ toString backendPort :: (["-j"] ++ [target]))), _
    exact forall_words (by decide) hchain (forall_words (by decide) ip.isWord
      (forall_words (by decide) (isWord_toString _) (forall_words (by decide) htarget (by decide))))

theorem writes_masquerade : Writes Ip4.read ((masqueradeCommand ip.text backendPort).drop 2)
    (natPost, backendRule ip backendPort .masquerade) :=
  writes_backend ip backendPort (by decide) (by decide) rfl

theorem writes_accept : Writes Ip4.read ((acceptCommand ip.text backendPort).drop 2)
    (fwdChain, backendRule ip backendPort .accept) :=
  writes_backend ip backendPort (by decide) (by decide) rfl

end Written

/-! ## The tables after the rules are written -/

section Restored

variable {names : SetNames} {fwd : Forward} {forwards : List Forward}

@[simp] theorem ofTable_command {table t option : String} {rest : List String} :
    ofTable table ("-t" :: t :: option :: rest) = decide (t = table) := by
  simp [ofTable]

theorem filter_raw : (forwardCommands names fwd).filter (ofTable "raw") =
    (if fwd.banCheck then [banCommand names fwd] else []) ++
      if fwd.zeroTrust then [zeroTrustCommand names fwd] else [] := by
  simp only [forwardCommands, List.filter_append, List.filter_flatMap]
  cases fwd.banCheck <;> cases fwd.zeroTrust <;>
    simp [banCommand, zeroTrustCommand, portCommands, dnatCommand, masqueradeCommand, acceptCommand]

theorem filter_nat : (forwardCommands names fwd).filter (ofTable "nat") =
    fwd.portPairs.flatMap fun pair =>
      [dnatCommand fwd.backendIp.text pair.1 pair.2, masqueradeCommand fwd.backendIp.text pair.2] := by
  simp only [forwardCommands, List.filter_append, List.filter_flatMap]
  cases fwd.banCheck <;> cases fwd.zeroTrust <;>
    simp [banCommand, zeroTrustCommand, portCommands, dnatCommand, masqueradeCommand, acceptCommand]

theorem filter_filter : (forwardCommands names fwd).filter (ofTable "filter") =
    fwd.portPairs.flatMap fun pair => [acceptCommand fwd.backendIp.text pair.2] := by
  simp only [forwardCommands, List.filter_append, List.filter_flatMap]
  cases fwd.banCheck <;> cases fwd.zeroTrust <;>
    simp [banCommand, zeroTrustCommand, portCommands, dnatCommand, masqueradeCommand, acceptCommand]

theorem writes_raw : List.Forall₂ (Writes Ip4.read)
    (((forwardCommands names fwd).filter (ofTable "raw")).map (·.drop 2)) ((rawRules names fwd).map (rawChain, ·)) := by
  rw [filter_raw, rawRules, List.map_append, List.map_append]
  refine List.rel_append ?_ ?_
  · split
    · exact .cons writes_ban .nil
    · exact .nil
  · split
    · exact .cons writes_zeroTrust .nil
    · exact .nil

theorem writes_nat : List.Forall₂ (Writes Ip4.read)
    (((forwardCommands names fwd).filter (ofTable "nat")).map (·.drop 2)) (natRules fwd) := by
  rw [filter_nat, List.map_flatMap]
  exact writes_flatMap (fun pair => .cons (writes_dnat _ _ _) (.cons (writes_masquerade _ _) .nil)) _

theorem writes_filter : List.Forall₂ (Writes Ip4.read)
    (((forwardCommands names fwd).filter (ofTable "filter")).map (·.drop 2)) ((filterRules fwd).map (fwdChain, ·)) := by
  rw [filter_filter, List.map_flatMap, filterRules, List.map_map, ← List.flatMap_pure_eq_map]
  exact writes_flatMap (fun pair => .cons (writes_accept _ _) .nil) _

theorem writes_table (table : String) (first : List (String × Rule Ip4)) {rules : Forward → List (String × Rule Ip4)}
    (hfirst : List.Forall₂ (Writes Ip4.read) (([establishedCommand].filter (ofTable table)).map (·.drop 2)) first)
    (h : ∀ fwd, List.Forall₂ (Writes Ip4.read)
      (((forwardCommands names fwd).filter (ofTable table)).map (·.drop 2)) (rules fwd)) :
    List.Forall₂ (Writes Ip4.read)
      (((buildRuleCommands names forwards).filter (ofTable table)).map (·.drop 2)) (first ++ forwards.flatMap rules) := by
  have hsplit : buildRuleCommands names forwards = [establishedCommand] ++ forwards.flatMap (forwardCommands names) := rfl
  rw [hsplit, List.filter_append, List.map_append, List.filter_flatMap, List.map_flatMap]
  exact List.rel_append hfirst (writes_flatMap h forwards)

theorem written_blocks : List.Forall₂ (Block.Written Ip4.read) (ruleBlocks names forwards)
    (["raw", "nat", "filter"].map (tableLines (buildRuleCommands names forwards))) := by
  have hraw : IsWord "raw".toList ∧ ∀ chain ∈ [rawChain], IsWord chain.toList := by decide
  have hnat : IsWord "nat".toList ∧ ∀ chain ∈ [natPre, natPost], IsWord chain.toList := by decide
  have hfilter : IsWord "filter".toList ∧ ∀ chain ∈ [fwdChain], IsWord chain.toList := by decide
  refine .cons ⟨hraw.1, hraw.2, _, ?_, rfl⟩ (.cons ⟨hnat.1, hnat.2, _, ?_, rfl⟩
    (.cons ⟨hfilter.1, hfilter.2, _, ?_, rfl⟩ .nil))
  · rw [List.map_flatMap]
    exact writes_table "raw" [] .nil fun fwd => writes_raw
  · exact writes_table "nat" [] .nil fun fwd => writes_nat
  · rw [List.map_cons, List.map_flatMap]
    exact writes_table "filter" [(fwdChain, establishedRule)] (.cons writes_established .nil) fun fwd => writes_filter

/-- The chains after `_run_restore`. -/
def restored (names : SetNames) (forwards : List Forward) (before : Tables Ip4) : Tables Ip4 :=
  (ruleBlocks names forwards).foldl (fun tables b => b.apply tables) before

theorem restore_rules (before : Tables Ip4) :
    restore Ip4.read before (restoreText (buildRuleCommands names forwards)) = some (restored names forwards before) := by
  rw [restoreText, List.flatMap_def]
  exact restore_written written_blocks (by simp [tableLines])

variable {before : Tables Ip4}

theorem filter_const {chain : String} (rules : List (Rule Ip4)) :
    ((rules.map (chain, ·)).filter (·.1 = chain)).map (·.2) = rules := by
  simp [List.filter_map, Function.comp_def]

theorem restored_raw : restored names forwards before "raw" rawChain = forwards.flatMap (rawRules names) := by
  simp only [restored, ruleBlocks, List.foldl_cons, List.foldl_nil]
  rw [Block.apply_other (by simp), Block.apply_other (by simp), Block.apply_flushed (by simp), filter_const]

/-- One of the two chains of the table, forward by forward. -/
theorem restored_nat (chain : String) (rule : Ip4 → Nat × Nat → Rule Ip4) (hchain : chain ∈ [natPre, natPost])
    (hone : ∀ ip pair, (([(natPre, dnatRule ip pair.1 pair.2), (natPost, backendRule ip pair.2 .masquerade)].filter
      (·.1 = chain)).map (·.2)) = [rule ip pair]) :
    restored names forwards before "nat" chain =
      forwards.flatMap fun fwd => fwd.portPairs.map (rule fwd.backendIp) := by
  simp only [restored, ruleBlocks, List.foldl_cons, List.foldl_nil]
  rw [Block.apply_other (by simp), Block.apply_flushed hchain]
  simp only [natRules, List.filter_flatMap, List.map_flatMap, hone]
  simp only [List.map_eq_flatMap]

theorem restored_natPre : restored names forwards before "nat" natPre =
    forwards.flatMap fun fwd => fwd.portPairs.map fun pair => dnatRule fwd.backendIp pair.1 pair.2 :=
  restored_nat natPre (fun ip pair => dnatRule ip pair.1 pair.2) (by simp) fun _ _ => by simp [natPre, natPost]

theorem restored_natPost : restored names forwards before "nat" natPost =
    forwards.flatMap fun fwd => fwd.portPairs.map fun pair => backendRule fwd.backendIp pair.2 .masquerade :=
  restored_nat natPost (fun ip pair => backendRule ip pair.2 .masquerade) (by simp) fun _ _ => by
    simp [natPre, natPost]

theorem restored_filter : restored names forwards before "filter" fwdChain =
    establishedRule :: forwards.flatMap filterRules := by
  simp only [restored, ruleBlocks, List.foldl_cons, List.foldl_nil]
  rw [Block.apply_flushed (by simp), filter_const]

theorem Forward.mem_portPairs {listenPort backendPort : Nat} : (listenPort, backendPort) ∈ fwd.portPairs ↔
    listenPort ∈ fwd.listen.ports ∧ backendPort = fwd.backend.start + (listenPort - fwd.listen.start) := by
  have hle := fwd.listen.le
  simp only [Forward.portPairs, List.mem_map, Prod.exists, Prod.mk.injEq, List.mem_zipIdx_iff_getElem?,
    PortRange.mem_ports]
  have hget : ∀ offset port, fwd.listen.ports[offset]? = some port ↔
      offset < fwd.listen.count ∧ port = fwd.listen.start + offset := by
    intro offset port
    simp only [PortRange.ports]
    by_cases h : offset < fwd.listen.count
    · simp [h, eq_comm]
    · simp [h]
  simp only [hget, PortRange.count]
  constructor
  · rintro ⟨port, offset, ⟨hlt, rfl⟩, rfl, rfl⟩
    omega
  · rintro ⟨hin, rfl⟩
    exact ⟨listenPort, listenPort - fwd.listen.start, ⟨by omega, by omega⟩, rfl, rfl⟩

end Restored

end EasyHaProxy.Udp
